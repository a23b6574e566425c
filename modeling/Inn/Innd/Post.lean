import Inn.Storage.Ov

/-!
# Posting an article

An article that has been received is checked, stored in the spool, entered into
the overview and then into the history. What holds it is the state of the server;
whether a step fails is an answer that the step gets. A storage method that fails
may leave the article in the spool, under a token that nobody is told.
-/

namespace Inn.Innd.Post

open Storage.Ov (OVADDRESULT)

inductive OPERATINGMODE
  | OMrunning
  | OMpaused
  | OMthrottled
  deriving DecidableEq

inductive RejectType
  | REJECT_DUPLICATE
  | REJECT_SITE
  | REJECT_FILTER
  | REJECT_DISTRIB
  | REJECT_GROUP
  | REJECT_UNAPP
  | REJECT_OTHER
  deriving DecidableEq

inductive SMERR
  | SMERR_NOERROR
  | SMERR_NOMATCH
  | other
  deriving DecidableEq

inductive Match
  | fail
  | ok
  | poison
  deriving DecidableEq

structure Answer where
  done : Bool
  /-- It failed for want of space. -/
  ENOSPC : Bool := false
  /-- `CCblock` does not take the reason for throttling. -/
  refused : Bool := false

section Posting

variable {Id Token Article Group : Type} [DecidableEq Id] [DecidableEq Token]

structure Server (Id Token Article Group : Type) where
  Mode : OPERATINGMODE
  ErrorCount : Int
  /-- Whether `History` is open. -/
  History : Bool
  /-- The message-IDs that are known, with the token of the article if there is one. -/
  history : List (Id × Option Token)
  spool : List (Token × Article)
  overview : List (Token × Group × Int)

structure Settings where
  remembertrash : Bool
  wanttrash : Bool
  verifygroups : Bool
  mergetogroups : Bool
  dontrejectfiltered : Bool
  xrefslave : Bool
  enableoverview : Bool
  useoverchan : Bool
  /-- There is an `ovgrouppat`. -/
  ovgrouppat : Bool
  groupbaseexpiry : Bool
  DoCancels : Bool
  verifycancels : Bool

structure NewsgroupCheck where
  /-- `NGfind` finds it. -/
  found : Bool
  /-- Its name starts with `to.` and goes on after it. -/
  toGroup : Bool
  ignored : Bool
  moderated : Bool
  canpost : Int
  junk : Bool

structure Checks where
  artclean : Bool
  HDR_FOUND_PATH : Bool
  HDR_FOUND_MESSAGE_ID : Bool
  hopcount : Nat
  excluded : Bool
  /-- The answers of the filters in Python and Perl. -/
  filterPython : Bool
  filterPerl : Bool
  bogusDistribution : Bool
  unwantedDistribution : Bool
  LikeNewgroup : Bool
  Approved : Bool
  groups : List NewsgroupCheck
  ARTxrefslave : Bool

structure Refusal where
  code : RejectType
  remembers : Bool
  deriving DecidableEq

structure Filing where
  GroupMissing : Bool
  Accepted : Bool
  NoHistoryUpdate : Bool

def checkNewsgroup (c : Checks) (ngp : NewsgroupCheck) (filing : Filing) : Except Refusal Filing :=
  if ngp.ignored then .ok filing
  else if ngp.moderated ∧ ¬c.Approved then .error { code := .REJECT_UNAPP, remembers := true }
  else if ngp.canpost = 0 then .ok { filing with NoHistoryUpdate := true }
  else if ngp.canpost < 0 then .error { code := .REJECT_GROUP, remembers := false }
  else .ok { filing with Accepted := true }

def checkNewsgroups (s : Settings) (c : Checks) :
    List NewsgroupCheck → Filing → Except Refusal Filing
  | [], filing => .ok filing
  | ngp :: groups, filing =>
    if ngp.found then checkNewsgroup c ngp filing >>= checkNewsgroups s c groups
    else
      let filing := { filing with GroupMissing := true }
      if c.LikeNewgroup ∧ c.Approved then
        let filing := { filing with Accepted := true }
        if s.mergetogroups ∧ ngp.toGroup then checkNewsgroup c ngp filing >>=
          checkNewsgroups s c groups
        else checkNewsgroups s c groups filing
      else if s.verifygroups then .error { code := .REJECT_GROUP, remembers := true }
      else if s.mergetogroups ∧ ngp.toGroup then checkNewsgroup c ngp filing >>=
        checkNewsgroups s c groups
      else checkNewsgroups s c groups filing

def check (s : Settings) (c : Checks) (duplicate : Bool) : Except Refusal Filing :=
  if ¬c.artclean ∧ (¬c.HDR_FOUND_PATH ∨ ¬c.HDR_FOUND_MESSAGE_ID) then
    .error { code := .REJECT_OTHER, remembers := false }
  else if c.hopcount = 0 then .error { code := .REJECT_OTHER, remembers := false }
  else if duplicate then .error { code := .REJECT_DUPLICATE, remembers := false }
  else if ¬c.artclean then .error { code := .REJECT_OTHER, remembers := true }
  else if c.excluded then .error { code := .REJECT_SITE, remembers := true }
  else if c.filterPython ∧ ¬s.dontrejectfiltered then
    .error { code := .REJECT_FILTER, remembers := true }
  else if c.filterPerl ∧ ¬s.dontrejectfiltered then
    .error { code := .REJECT_FILTER, remembers := true }
  else if c.bogusDistribution then .error { code := .REJECT_DISTRIB, remembers := true }
  else if c.unwantedDistribution then .error { code := .REJECT_DISTRIB, remembers := true }
  else
    match checkNewsgroups s c c.groups
        { GroupMissing := false, Accepted := false, NoHistoryUpdate := false } with
    | .error r => .error r
    | .ok filing =>
      if ¬filing.Accepted ∧ (¬s.wanttrash ∨ ¬filing.GroupMissing) then
        .error { code := .REJECT_GROUP, remembers := ¬filing.NoHistoryUpdate }
      else if s.xrefslave ∧ ¬c.ARTxrefslave then .error { code := .REJECT_OTHER, remembers := true }
      else .ok filing

structure Posting (Id Article Group : Type) where
  MessageID : Id
  text : Article
  Xref : List (Group × Int)
  /-- The article that a cancel message names, and the one that is superseded. -/
  cancels : List Id

structure Outcomes (Id Token Group : Type) where
  remembered : Answer
  /-- What goes wrong while the active file is written. -/
  ICDwriteactive : List Answer
  /-- The token that `SMstore` returns, if it is not the empty one. -/
  SMstore : Option Token
  /-- The token of a file that an `SMstore` which fails has left of the article. -/
  left : Option Token
  SMerrno : SMERR
  storing : Answer
  /-- The overview line has the Xref it needs. -/
  overviewLine : Bool
  ovgrouppat : Group → Match
  SELFEXPIRE : Bool
  /-- Whether the overview method adds the article to a group. -/
  add : Group → Int → Bool
  creating : Answer
  written : Answer
  ARTcancelverify : Id → Bool
  OVcancel : Bool
  SMcancel : Bool
  remembersCancelled : Answer

def CCblock (srv : Server Id Token Article Group) : Server Id Token Article Group :=
  { srv with Mode := .OMthrottled, History := false }

def ThrottleIOError (a : Answer) (srv : Server Id Token Article Group) :
    Server Id Token Article Group :=
  if srv.Mode = .OMrunning ∧ ¬a.refused then CCblock srv else srv

def IOError (a : Answer) (srv : Server Id Token Article Group) : Server Id Token Article Group :=
  if srv.ErrorCount - 1 ≤ 0 ∨ a.ENOSPC then
    ThrottleIOError a { srv with ErrorCount := srv.ErrorCount - 1 }
  else { srv with ErrorCount := srv.ErrorCount - 1 }

def HIScheck (id : Id) (srv : Server Id Token Article Group) : Bool :=
  srv.History && srv.history.any fun entry => entry.1 = id

def HISlookup (id : Id) (srv : Server Id Token Article Group) : Option Token :=
  if srv.History then (srv.history.find? fun entry => entry.1 = id).bind Prod.snd else none

def InndHisWrite (a : Answer) (id : Id) (token : Option Token)
    (srv : Server Id Token Article Group) :
    Bool × Server Id Token Article Group :=
  if srv.History ∧ a.done then (true, { srv with history := (id, token) :: srv.history })
  else (false, IOError { a with ENOSPC := srv.History && a.ENOSPC } srv)

def InndHisRemember (a : Answer) (id : Id) (srv : Server Id Token Article Group) :
    Server Id Token Article Group := (InndHisWrite a id none srv).2

def rejects (s : Settings) (o : Outcomes Id Token Group) (id : Id) (r : Refusal)
    (srv : Server Id Token Article Group) : Server Id Token Article Group :=
  if r.remembers ∧ s.remembertrash ∧ srv.Mode = .OMrunning then InndHisRemember o.remembered
    id srv else srv

def leave (o : Outcomes Id Token Group) (text : Article) (srv : Server Id Token Article Group) :
    Server Id Token Article Group :=
  { srv with spool := (o.left.map fun token => (token, text)).toList ++ srv.spool }

def ARTstore (o : Outcomes Id Token Group) (text : Article) (srv : Server Id Token Article Group) :
    Option Token × Server Id Token Article Group :=
  match o.SMstore with
  | some token => (some token, { srv with spool := (token, text) :: srv.spool })
  | none =>
    -- tradspool does not remove the file when a link to it cannot be made
    let srv := leave o text srv
    match o.SMerrno with
    | .SMERR_NOMATCH => (none, ThrottleIOError o.storing srv)
    | .SMERR_NOERROR => (none, srv)
    | .other => (none, IOError { o.storing with ENOSPC := false } srv)

def addGroups (s : Settings) (o : Outcomes Id Token Group) (token : Token) :
    List (Group × Int) → Server Id Token Article Group → OVADDRESULT × Server Id Token Article Group
  | [], srv => (.OVADDCOMPLETED, srv)
  | (group, artnum) :: groups, srv =>
    if artnum ≤ 0 then addGroups s o token groups srv
    else if s.ovgrouppat ∧ o.ovgrouppat group ≠ .ok then addGroups s o token groups srv
    else if ¬o.add group artnum then (.OVADDFAILED, srv)
    else addGroups s o token groups { srv with overview := (token, group, artnum) :: srv.overview }

def patcheck (s : Settings) (o : Outcomes Id Token Group) : List (Group × Int) → Option OVADDRESULT
  | [] => none
  | (group, _) :: groups =>
    match o.ovgrouppat group with
    | .poison => some .OVADDGROUPNOMATCH
    | .fail => if ¬o.SELFEXPIRE ∧ s.groupbaseexpiry then some .OVADDFAILED else patcheck s o groups
    | .ok => patcheck s o groups

def OVadd (s : Settings) (o : Outcomes Id Token Group) (token : Token) (Xref : List (Group × Int))
    (srv : Server Id Token Article Group) : OVADDRESULT × Server Id Token Article Group :=
  if ¬o.overviewLine then (.OVADDFAILED, srv)
  else
    match if s.ovgrouppat then patcheck s o Xref else none with
    | some result => (result, srv)
    | none => addGroups s o token Xref srv

def createOverview (s : Settings) (o : Outcomes Id Token Group) (token : Token)
    (Xref : List (Group × Int))
    (srv : Server Id Token Article Group) : Option OVADDRESULT × Server Id Token Article Group :=
  if s.enableoverview ∧ ¬s.useoverchan then
    match OVadd s o token Xref srv with
    | (.OVADDFAILED, srv) => (some .OVADDFAILED, IOError o.creating srv)
    | (result, srv) => (some result, srv)
  else (none, srv)

def ARTcancel (s : Settings) (o : Outcomes Id Token Group)
    (srv : Server Id Token Article Group) (id : Id) :
    Server Id Token Article Group :=
  if ¬s.DoCancels then srv
  else if ¬HIScheck id srv then
    if s.verifycancels then srv else InndHisRemember o.remembersCancelled id srv
  else
    match if s.verifycancels ∧ ¬o.ARTcancelverify id then none else HISlookup id srv with
    | none => srv
    | some token =>
      { srv with
        overview :=
          if s.enableoverview ∧ o.OVcancel then srv.overview.filter fun entry => entry.1 ≠ token
          else srv.overview
        spool := if o.SMcancel then srv.spool.filter fun entry => entry.1 ≠ token else srv.spool }

def beforeStore (o : Outcomes Id Token Group) (srv : Server Id Token Article Group) :
    Server Id Token Article Group :=
  o.ICDwriteactive.foldl (fun srv a => if a.done then srv else IOError a srv) srv

def ARTpost (s : Settings) (c : Checks) (o : Outcomes Id Token Group)
    (art : Posting Id Article Group)
    (srv : Server Id Token Article Group) : Bool × Server Id Token Article Group :=
  match check s c (HIScheck art.MessageID srv) with
  | .error r => (false, rejects s o art.MessageID r srv)
  | .ok filing =>
    match ARTstore o art.text (beforeStore o srv) with
    | (none, srv) => (false, srv)
    | (some token, srv) =>
      let (_, srv) := createOverview s o token art.Xref srv
      if srv.Mode ≠ .OMrunning then (false, srv)
      else
        match InndHisWrite o.written art.MessageID (some token) srv with
        | (false, srv) => (false, srv)
        | (true, srv) => (true,
            if filing.Accepted then art.cancels.foldl (ARTcancel s o) srv else srv)

end Posting

end Inn.Innd.Post
