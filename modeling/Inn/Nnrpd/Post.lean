import Inn.Innd.Numbering
import Inn.Nnrpd.Newnews

/-!
# Posting through nnrpd

The headers of an article are taken off its text into a table, the groups that it is posted to are
looked up, and the headers are checked and completed. Then the article is mailed to a moderator or
sent to the server.

The hooks for the interpreters that may be compiled in are left out.
-/

namespace Inn.Nnrpd.Post

open Foundation.Words Innd
open Newnews (PERMmatch)
open Innd.Numbering (MAXARTLINELENGTH)

section Table

inductive HEADERTYPE
  | HTobs
  | HTreq
  | HTstd
  deriving DecidableEq

structure HEADER where
  Name : Octets
  CanSet : Bool
  type : HEADERTYPE

def Table : List HEADER :=
  [("Path", true, .HTstd), ("From", true, .HTreq), ("Newsgroups", true, .HTreq),
    ("Subject", true, .HTreq),
   ("Control", true, .HTstd), ("Supersedes", true, .HTstd), ("Followup-To", true, .HTstd),
   ("Date", true, .HTstd), ("Organization", true, .HTstd), ("Lines", true, .HTstd),
     ("Sender", true, .HTstd),
   ("Approved", true, .HTstd), ("Archive", true, .HTstd), ("Distribution", true, .HTstd),
   ("Expires", true, .HTstd), ("Message-ID", true, .HTstd), ("References", true, .HTstd),
   ("Reply-To", true, .HTstd), ("NNTP-Posting-Host", false, .HTobs), ("Mime-Version", true, .HTstd),
   ("Content-Type", true, .HTstd), ("Content-Transfer-Encoding", true, .HTstd),
     ("X-Trace", false, .HTobs),
   ("X-Complaints-To", false, .HTobs), ("NNTP-Posting-Date", false, .HTobs),
     ("Xref", false, .HTstd),
   ("Injection-Date", true, .HTstd), ("Injection-Info", false, .HTstd), ("Summary", true, .HTstd),
   ("Keywords", true, .HTstd), ("User-Agent", true, .HTstd), ("Date-Received", false, .HTobs),
   ("Posting-Version", false, .HTobs), ("Relay-Version", false, .HTobs), ("Cc", true, .HTstd),
   ("Bcc", true, .HTstd), ("To", true, .HTstd), ("Archived-At", true, .HTstd),
     ("Also-Control", false, .HTobs),
   ("Article-Names", false, .HTobs), ("Article-Updates", false, .HTobs),
     ("See-Also", false, .HTobs),
   ("Cancel-Key", true, .HTstd), ("Cancel-Lock", true, .HTstd)].map
    fun ((name, canSet, type) : String × Bool × HEADERTYPE) => ⟨octets name, canSet, type⟩

def HDR_PATH : Nat := 0
def HDR_FROM : Nat := 1
def HDR_NEWSGROUPS : Nat := 2
def HDR_CONTROL : Nat := 4
def HDR_FOLLOWUPTO : Nat := 6
def HDR_DATE : Nat := 7
def HDR_ORGANIZATION : Nat := 8
def HDR_SENDER : Nat := 10
def HDR_APPROVED : Nat := 11
def HDR_DISTRIBUTION : Nat := 13
def HDR_EXPIRES : Nat := 14
def HDR_MESSAGEID : Nat := 15
def HDR_INJECTION_DATE : Nat := 26
def HDR_INJECTION_INFO : Nat := 27
def HDR_CC : Nat := 34
def HDR_BCC : Nat := 35
def HDR_TO : Nat := 36

structure Field where
  Value : Octets
  Body : Octets
  Len : Nat
  deriving DecidableEq

abbrev Headers := Nat → Option Field

variable (t : Headers)

def Headers.HDR (hdr : Nat) : Option Octets := (t hdr).map Field.Body

def Headers.HDR_SET (hdr : Nat) (y : Octets) : Headers :=
    Function.update t hdr (some ⟨y, y, y.length⟩)

def Headers.HDR_CLEAR (hdr : Nat) : Headers := Function.update t hdr none

end Table

def snprintf (size : Nat) (text : Octets) : Octets := text.take (size - 1)

def TrimSpaces (p : Octets) : Nat :=
  ((p.dropWhile fun c => ISWHITE c || c = 10).reverse.dropWhile isspace).length

def NextHeader : Nat → Octets → Except Octets (Octets × Octets)
  | _, [] => .error (octets "Article has no body -- just headers")
  | q, c :: p =>
    if c = 10 then
      if MAXARTLINELENGTH < q + 2 then .error (octets "Header line too long")
      else if ISWHITE (p.headD 0) then (NextHeader 0 p).map fun found => (c :: found.1, found.2)
      else .ok ([], p)
    else (NextHeader (q + 1) p).map fun found => (c :: found.1, found.2)

def sameStart (p name : Octets) : Bool := (p.take name.length).map toupper = name.map toupper

def known (p : Octets) : Option Nat :=
  Table.findIdx? fun hp => toupper (p.headD 0) = hp.Name.headD 0 && p.getD hp.Name.length 0 =
    58 && sameStart p hp.Name

def skipBlanks : Octets → Octets
  | [] => []
  | c :: q => if ISWHITE c || c = 10 && ISWHITE (q.headD 0) then skipBlanks q else c :: q

structure Article where
  headers : Headers
  OtherHeaders : List Octets
  body : Octets

def stripOff : Nat → Headers → List Octets → Octets → Except Octets Article
  | 0, _, _, _ => .error (octets "Article has no body -- just headers")
  | turns + 1, t, others, p =>
    let stripped : Except Octets (Option Nat) :=
      match known p with
      | none => .ok none
      | some hdr =>
        match Table[hdr]? with
        | none => .ok none
        | some hp =>
          if hp.type = .HTobs then .error
            (snprintf SMBUF (octets "Obsolete " ++ hp.Name ++ octets ": header"))
          else if (t hdr).isSome then .error
            (snprintf SMBUF (octets "Duplicate " ++ hp.Name ++ octets ": header"))
          else .ok (some hdr)
    match stripped, NextHeader 0 p with
    | .error error, _ => .error error
    | _, .error error => .error error
    | .ok found, .ok (header, p) =>
      let t := match found with
        | none => t
        | some hdr =>
          let Value := header.drop (((Table[hdr]?).map fun hp => hp.Name.length + 1).getD 0)
          Function.update t hdr (some ⟨Value, skipBlanks Value, 0⟩)
      let others := if found.isNone then others ++ [header] else others
      if p.headD 0 = 10 then .ok ⟨t, others, p.tail⟩ else stripOff turns t others p

def StripOffHeaders (article : Octets) : Except Octets Article :=
  let article := article.takeWhile (· ≠ 0)
  stripOff (article.length + 1) (fun _ => none) [] article

section Newsgroups

def NF_FLAG_MODERATED : UInt8 := 109
def NF_FLAG_IGNORE : UInt8 := 120
def NF_FLAG_JUNK : UInt8 := 106
def NF_FLAG_NOLOCAL : UInt8 := 110
def NF_FLAG_ALIAS : UInt8 := 61

/-- A server parts the groups of its headers at commas and at white space. -/
def separates (c : UInt8) : Bool := [44, 32, 9, 10, 13].contains c

/-- What the parameters, the permissions of the client and the server give the checks. -/
structure Config where
  mergetogroups : Bool
  artcutoff : Nat
  PERMspecified : Bool
  PERMpostlist : List Octets
  PERMauthorized : Bool
  PERMuser : Octets
  host : Octets
  ip : Octets
  VirtualPath : Octets
  allowapproved : Bool
  locpost : Bool
  checkincludedtext : Bool
  addinjectiondate : Bool
  nnrpdauthsender : Bool
  localtime : Bool
  strippath : Bool
  pathhost : Octets
  addinjectionpostinghost : Bool
  addinjectionpostingaccount : Bool
  organization : Option Octets
  domain : Octets
  complaints : Option Octets
  fromhost : Option Octets
  strippostcc : Bool
  localmaxartsize : Nat
  /-- The flag of a group, where there is such a group. -/
  OVgroupstats : Octets → Option UInt8
  /-- A line of the active file ends its name at a blank. -/
  named : ∀ g, (OVgroupstats g).isSome → ∀ c ∈ g, separates c = false
  /-- The distribution for the groups that have been looked up. -/
  DDend : List Octets → Octets
  now : Int
  datebuff : Option Octets
  localdatebuff : Option Octets
  parsedate : Octets → Option Int
  IsValidHeaderBody : Octets → Bool
  IsValidHeaderField : Octets → Bool
  IsValidMessageID : Octets → Bool
  HeaderCleanFrom : Octets → Octets
  innGetfqdn : Option Octets
  NEWSMASTER : Octets
  pid : Octets
  /-- What lies behind the end of the Control header. -/
  behind : Octets

structure Lookup where
  Error : Octets
  FoundOne : Bool
  modgroup : Option Octets
  checked : List Octets

variable (cfg : Config)

def strtok (seps : Octets) (text : Octets) : List Octets :=
  words seps.contains text.length (text.dropWhile seps.contains)

def Config.group (p : Octets) : Octets :=
    if cfg.mergetogroups && p.take 3 = octets "to." then octets "to" else p

def Config.judge (approved : Bool) (p : Octets) (flag : UInt8) (s : Lookup) : Lookup :=
  if flag = NF_FLAG_MODERATED then
    if !approved && s.modgroup.isNone then { s with modgroup := some p } else s
  else if flag = NF_FLAG_IGNORE || flag = NF_FLAG_JUNK || flag = NF_FLAG_NOLOCAL then
    if !cfg.locpost then
      { s with Error := snprintf SMBUF (octets "Postings to \"" ++
        p ++ octets "\" are not allowed here") }
    else s
  else if flag = NF_FLAG_ALIAS then
    { s with Error := snprintf SMBUF (octets "The newsgroup \"" ++ p ++
      octets "\" has been renamed\n") }
  else s

def Config.lookUp (approved : Bool) (s : Lookup) (p : Octets) : Lookup :=
  let p := cfg.group p
  let s :=
    if cfg.PERMspecified && !PERMmatch cfg.PERMpostlist [p] then
      { s with Error := snprintf SMBUF (octets "You are not allowed to post to " ++ p ++
        octets "\r\n") }
    else s
  match cfg.OVgroupstats p with
  | none => s
  | some flag => cfg.judge approved p flag { s with FoundOne := true, checked := s.checked ++ [p] }

def IsNewgroup (t : Headers) : Bool :=
    (t.HDR HDR_CONTROL).any fun p => sameStart p (octets "newgroup")

def Config.setDistribution (t : Headers) (checked : List Octets) : Headers :=
  let p := cfg.DDend checked
  if (t.HDR HDR_DISTRIBUTION).isNone && p ≠ [] then t.HDR_SET HDR_DISTRIBUTION
    (snprintf SMBUF p) else t

def Config.ValidNewsgroups (t : Headers) (hdr : Octets) : Except Octets (Option Octets × Headers) :=
  match strtok [44] hdr with
  | [] => .error (octets "Can't parse Newsgroups: header")
  | groups =>
    let approved := (t.HDR HDR_APPROVED).isSome
    let Error :=
      if approved && !cfg.allowapproved then octets
        "You are not allowed to approve postings" else []
    let s := groups.foldl (cfg.lookUp approved) ⟨Error, false, none, []⟩
    let Error :=
      if !s.FoundOne && !IsNewgroup t then
        snprintf SMBUF (octets "No valid newsgroups in \"" ++ MaxLength hdr ++ octets "\"")
      else s.Error
    if Error ≠ [] then .error Error
    else .ok (s.modgroup, cfg.setDistribution t s.checked)

end Newsgroups

section Processing

def DATE_FUZZ : Int := 24 * 60 * 60

def PATHMASTER : Octets := octets "not-for-mail"

variable (cfg : Config)

def Config.CheckControl (ctrl : Octets) : Except Octets Unit :=
  let ctrl := ctrl.dropWhile ISWHITE
  let word := ctrl.takeWhile fun c => !ISWHITE c
  let same (name : String) : Bool := word.map toupper = (octets name).map toupper
  if word = [] then .error (octets "Empty control message")
  else if same "cancel" then
    -- the search for the argument goes on behind the end when the command ends the header
    let q := match ctrl.drop word.length with
      | [] => cfg.behind
      | _ :: q => q
    if (q.dropWhile ISWHITE).headD 0 = 0 then .error (octets "Message-ID missing in cancel")
    else .ok ()
  else if ["checkgroups", "ihave", "sendme", "newgroup", "rmgroup"].any same then .ok ()
  else .error (snprintf SMBUF
    (octets "\"" ++ MaxLength word ++ octets "\" is not a valid control message"))

def CheckDistribution (p : Octets) : Except Octets Unit :=
  match strtok [32, 9, 44] p with
  | [] => .error (octets "Can't parse Distribution: header")
  | names =>
    match names.find? fun name => name.contains 46 with
    | some name => .error
        (snprintf SMBUF (octets "Illegal distribution \"" ++ MaxLength name ++ octets "\""))
    | none => .ok ()

def Config.fixup (t : Headers) (hdr : Nat) (hp : HEADER) : Except Octets Headers :=
  match t hdr with
  | none => .ok t
  | some field =>
    if !hp.CanSet then .error
      (snprintf SMBUF (octets "Can't set system " ++ hp.Name ++ octets ": header"))
    else
      let Len := TrimSpaces field.Value
      if Len = 0 then .ok (t.HDR_CLEAR hdr)
      else if !cfg.IsValidHeaderBody field.Value then
        .error (snprintf SMBUF (octets "Invalid syntax encountered in " ++ hp.Name ++
          octets ": header field body (unexpected byte or empty content line)"))
      else .ok (Function.update t hdr (some { field with Len := Len }))

def Config.fixups (t : Headers) : Except Octets Headers :=
  Table.zipIdx.foldlM (fun t (hp, hdr) => cfg.fixup t hdr hp) t

def Config.setInjectionDate (datebuff : Octets) (needmoderation : Bool) (t : Headers) :
    Except Octets Headers :=
  match t.HDR HDR_INJECTION_DATE with
  | none =>
    if !needmoderation && cfg.addinjectiondate && ((t.HDR HDR_MESSAGEID).isNone ||
      (t.HDR HDR_DATE).isNone) then
      .ok (t.HDR_SET HDR_INJECTION_DATE datebuff)
    else .ok t
  | some date =>
    match cfg.parsedate date with
    | none => .error (octets "Can't parse Injection-Date: header")
    | some time =>
      if cfg.now + DATE_FUZZ < time then .error (octets "Article injected in the future") else .ok t

def Config.setSender (t : Headers) : Headers :=
  if cfg.nnrpdauthsender then
    if cfg.PERMauthorized && cfg.PERMuser ≠ [] then
      t.HDR_SET HDR_SENDER
        (snprintf (SMBUF * 2) (if cfg.PERMuser.contains 64 then cfg.PERMuser else cfg.PERMuser ++
          [64] ++ cfg.host))
    else t.HDR_CLEAR HDR_SENDER
  else t

def Config.setDate (datebuff : Octets) (t : Headers) : Except Octets Headers :=
  match t.HDR HDR_DATE with
  | none =>
    if cfg.localtime then
      match cfg.localdatebuff with
      | none => .error (octets "Can't generate local date header")
      | some localdatebuff => .ok (t.HDR_SET HDR_DATE localdatebuff)
    else .ok (t.HDR_SET HDR_DATE datebuff)
  | some date =>
    match cfg.parsedate date with
    | none => .error (octets "Can't parse Date: header")
    | some time =>
      if cfg.now + DATE_FUZZ < time then .error (octets "Article posted in the future")
      else if cfg.artcutoff ≠ 0 ∧ time < cfg.now - cfg.artcutoff * 24 * 60 * 60 then
        .error (octets "Article posted too far in the past (check still done for legacy reasons on the Date: header)")
      else .ok t

def Config.checkControl (t : Headers) : Except Octets Unit :=
  match t.HDR HDR_CONTROL with
  | none => .ok ()
  | some ctrl => cfg.CheckControl ctrl

def Config.setMessageID (idbuff : Octets) (t : Headers) : Except Octets Headers :=
  let t := if (t.HDR HDR_MESSAGEID).isNone then t.HDR_SET HDR_MESSAGEID idbuff else t
  if ((t.HDR HDR_MESSAGEID).any cfg.IsValidMessageID) then .ok t
  else .error (octets "Can't parse Message-ID: header")

def injected : Option UInt8 → Octets → Bool
  | _, [] => false
  | before, c :: p =>
    (sameStart (c :: p) (octets ".POSTED") && [46, 33, 32, 9, 13,
      10].contains ((c :: p).getD 7 0) &&
      (before.isNone || before = some 33)) || injected (some c) p

def Config.injectPath (needmoderation addvirtual : Bool) (t : Headers) : Headers :=
  let newpath := (if addvirtual then cfg.VirtualPath else []) ++
    (if cfg.addinjectionpostinghost then octets ".POSTED." ++ cfg.host ++
      octets "!" else octets ".POSTED!") ++
    (t.HDR HDR_PATH).getD []
  if !needmoderation then t.HDR_SET HDR_PATH newpath else t

def Config.startPath (needmoderation : Bool) (t : Headers) : Headers :=
  if !needmoderation then t.HDR_SET HDR_PATH PATHMASTER
    else if cfg.strippath then t.HDR_CLEAR HDR_PATH else t

def Config.setPath (needmoderation : Bool) (t : Headers) : Except Octets Headers :=
  match t.HDR HDR_PATH, cfg.strippath with
  | some Path, false =>
    if injected none Path then .error
      (octets "Path: header shows a previous injection of the article")
    else
      let addvirtual := cfg.VirtualPath ≠ [] &&
        !(Path.contains 33 && (Path.takeWhile (· ≠ 33)).map toupper = cfg.pathhost.map toupper)
      .ok (cfg.injectPath needmoderation addvirtual t)
  | _, _ => .ok (cfg.injectPath needmoderation (cfg.VirtualPath ≠ [])
      (cfg.startPath needmoderation t))

def Config.checkExpires (t : Headers) : Except Octets Unit :=
  match t.HDR HDR_EXPIRES with
  | none => .ok ()
  | some date => if (cfg.parsedate date).isNone then .error
      (octets "Can't parse Expires: header") else .ok ()

def checkDistribution (t : Headers) : Except Octets Unit :=
  match t.HDR HDR_DISTRIBUTION with
  | none => .ok ()
  | some p => CheckDistribution p

def Config.setOrganization (t : Headers) : Headers :=
  match t.HDR HDR_ORGANIZATION, cfg.organization with
  | none, some p => t.HDR_SET HDR_ORGANIZATION (snprintf SMBUF p)
  | _, _ => t

def Config.injectionInfo : Octets :=
  let pathidentity :=
    if cfg.VirtualPath ≠ [] then cfg.domain else cfg.innGetfqdn.getD (octets "unknown")
  let postingaccount :=
    if cfg.addinjectionpostingaccount && cfg.PERMuser ≠ [] then
      octets "; posting-account=\"" ++ cfg.PERMuser ++ octets "\""
    else []
  let postinghost :=
    if !cfg.addinjectionpostinghost || (cfg.host = [] && cfg.ip = []) then []
    else if cfg.host = cfg.ip || cfg.host = [] then octets "; posting-host=\"" ++
      cfg.ip ++ octets "\""
    else if cfg.ip = [] then octets "; posting-host=\"" ++ cfg.host ++ octets "\""
    else octets "; posting-host=\"" ++ cfg.host ++ octets ":" ++ cfg.ip ++ octets "\""
  let complaints :=
    match cfg.complaints, cfg.fromhost with
    | some p, _ => p
    | none, some p => if cfg.NEWSMASTER.contains 64 then cfg.NEWSMASTER
        else cfg.NEWSMASTER ++ [64] ++ p
    | none, none => cfg.NEWSMASTER
  snprintf (SMBUF * 7) (snprintf SMBUF pathidentity ++ snprintf (SMBUF * 2) postingaccount ++
    snprintf (SMBUF * 2) postinghost ++ octets ";\n\tlogging-data=\"" ++ cfg.pid ++
    octets "\"; mail-complaints-to=\"" ++ snprintf SMBUF complaints ++ octets "\"")

def Config.setInjectionInfo (needmoderation : Bool) (t : Headers) : Headers :=
  if !needmoderation then t.HDR_SET HDR_INJECTION_INFO cfg.injectionInfo else t

def Config.stripCc (t : Headers) : Headers :=
  if cfg.strippostcc then ((t.HDR_CLEAR HDR_CC).HDR_CLEAR HDR_BCC).HDR_CLEAR HDR_TO else t

def checkRequired (t : Headers) : Except Octets Unit :=
  match Table.zipIdx.find? fun (hp, hdr) => hp.type = .HTreq && (t hdr).isNone with
  | none => .ok ()
  | some (hp, _) => .error
      (snprintf SMBUF (octets "Missing required " ++ hp.Name ++ octets ": header"))

def Config.ProcessHeaders (idbuff : Octets) (needmoderation : Bool) (OtherHeaders : List Octets)
    (t : Headers) :
    Except Octets Headers :=
  match cfg.datebuff with
  | none => .error (octets "Can't generate Date: header")
  | some datebuff => do
      let t ← cfg.fixups t
      let t ← cfg.setInjectionDate datebuff needmoderation t
      let t ← cfg.setDate datebuff (cfg.setSender t)
      cfg.checkControl t
      let t ← cfg.setMessageID idbuff t
      let t ← cfg.setPath needmoderation t
      cfg.checkExpires t
      checkDistribution t
      let t := cfg.stripCc (cfg.setInjectionInfo needmoderation (cfg.setOrganization t))
      checkRequired t
      if OtherHeaders.all cfg.IsValidHeaderField then .ok t
      else
        .error (octets "Invalid syntax encountered in headers (unexpected byte, no colon-space, or empty content line)")

end Processing

section Posting

variable (cfg : Config)

def included (lines : List Octets) : Int :=
  lines.foldl (fun i line =>
    if [62, 124, 58].contains (line.headD 0) then i +
      1 else if line.headD 0 = 60 then i - 1 else i) 0

def CheckIncludedText (p : Octets) (lines : Nat) : Except Octets Unit :=
  if 20 ≤ lines ∧ lines < included (p.splitOn 10) * 2 then
    .error (octets "Article not posted -- more included text than new text")
  else .ok ()

def Config.checkFrom (t : Headers) : Except Octets Unit :=
  let frombuf := (snprintf SMBUF ((t.HDR HDR_FROM).getD [])).map fun c => if c = 10 then 32 else c
  let p := ((cfg.HeaderCleanFrom frombuf).dropWhile (· = 64)).dropWhile (· ≠ 64)
  if p.tail.contains 46 then .ok () else .error (octets "From: address not in Internet syntax")

inductive Delivery
  | mailed (group : Octets)
  | sent
  deriving DecidableEq

def Config.checkText (body : Octets) : Except Octets Unit :=
  if cfg.checkincludedtext then CheckIncludedText body (body.count 10) else .ok ()

def Config.checkGroups (stripped : Article) : Except Octets (Option Octets × Headers) :=
  match stripped.headers.HDR HDR_NEWSGROUPS with
  | none => .ok (none, stripped.headers)
  | some hdr => cfg.ValidNewsgroups stripped.headers hdr

def Config.checkFollowup (t : Headers) : Except Octets Headers :=
  match t.HDR HDR_FOLLOWUPTO with
  | none => .ok t
  | some p => if p = octets "poster" then .ok t else (cfg.ValidNewsgroups t p).map Prod.snd

def checkEmpty (body : Octets) (t : Headers) : Except Octets Unit :=
  if body.count 10 = 0 ∧ (t.HDR HDR_CONTROL).isNone then .error
    (octets "Article is empty") else .ok ()

def Config.checkSize (body : Octets) : Except Octets Unit :=
  if cfg.localmaxartsize ≠ 0 ∧ cfg.localmaxartsize < body.length then
    .error (snprintf SMBUF (octets "Article is bigger than local limit of " ++
      decimal cfg.localmaxartsize ++
      octets " bytes\n"))
  else .ok ()

def Config.checkRest (idbuff : Octets) (stripped : Article) (needmoderation : Bool) (t : Headers) :
    Except Octets Headers := do
  let t ← cfg.ProcessHeaders idbuff needmoderation stripped.OtherHeaders t
  checkEmpty stripped.body t
  cfg.checkFrom t
  let t ← cfg.checkFollowup t
  cfg.checkSize stripped.body
  .ok t

def Delivery.to : Option Octets → Delivery
  | some group => .mailed group
  | none => .sent

def Config.ARTpost (article idbuff : Octets) : Except Octets (Delivery × Article) := do
  let stripped ← StripOffHeaders article
  cfg.checkText stripped.body
  let (modgroup, t) ← cfg.checkGroups stripped
  let t ← cfg.checkRest idbuff stripped modgroup.isSome t
  .ok (.to modgroup, { stripped with headers := t })

end Posting

end Inn.Nnrpd.Post
