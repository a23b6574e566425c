import Inn.Buffer
import Inn.Innd.Channel

/-!
# Writing replies to a channel

Replies are appended to the output buffer of a channel. A reply is written at once
if nothing else waits in the buffer, and else, or if that write falls short, when
`select` says that the descriptor takes more. The kernel decides how many octets a
write takes, and how a write fails.
-/

namespace Inn.Innd.Nntp

inductive ChannelState
  | CSerror
  | CSwaiting
  | CSgetcmd
  | CSgetauth
  | CSwritegoodbye
  | CSwriting
  | CSpaused
  | CSgetheader
  | CSgetbody
  | CSgotarticle
  | CSgotlargearticle
  | CSnoarticle
  | CSeatarticle
  | CSeatcommand
  | CSgetxbatch
  | CScancel
  deriving DecidableEq

def NNTP_FAIL_TERMINATING : String := "400"

def NCterm : Octets := [CR, LF]

inductive Errno
  | EINTR
  | EMSGSIZE
  | EAGAIN
  | EWOULDBLOCK
  | EPIPE
  | EIO
  deriving DecidableEq

inductive Write
  | takes (count : Nat)
  | fails (errno : Errno)

def Write.taken (result : Write) (data : Octets) : Octets :=
  match result with
  | .takes count => data.take count
  | .fails _ => []

structure Innconf where
  badiocount : Nat
  blockbackoff : Nat
  pauseretrytime : Nat

structure CHANNEL where
  type : ChannelType
  State : ChannelState
  Out : Buffer
  BadWrites : Nat
  BlockedWrites : Nat
  /-- Whether the descriptor is in the read set, and in the write set. -/
  reading : Bool
  writing : Bool
  /-- When the channel is to be woken, if it sleeps. -/
  Waketime : Option Nat
  /-- What has reached the descriptor. -/
  wire : Octets

def CHANcreate (Out : Buffer) : CHANNEL where
  type := .CTnntp
  State := .CSgetcmd
  Out := (bufferResize Out SMBUF).clear
  BadWrites := 0
  BlockedWrites := 0
  reading := false
  writing := false
  Waketime := none
  wire := []

def WCHANappend (cp : CHANNEL) (text : Octets) : CHANNEL :=
  { cp with Out := bufferAppend cp.Out text }

def WCHANadd (cp : CHANNEL) : CHANNEL :=
  if 0 < cp.Out.left then { cp with writing := true } else cp

def WCHANremove (cp : CHANNEL) : CHANNEL :=
  if cp.writing then
    { cp with
      writing := false
      Out := if cp.Out.left = 0 then cp.Out.clear else cp.Out }
  else
    cp

def RCHANadd (cp : CHANNEL) : CHANNEL := { cp with reading := true }

def RCHANremove (cp : CHANNEL) : CHANNEL := { cp with reading := false }

def SCHANadd (cp : CHANNEL) (wake : Nat) : CHANNEL := { cp with Waketime := some wake }

def SCHANremove (cp : CHANNEL) : CHANNEL := { cp with Waketime := none }

def CHANclose (cp : CHANNEL) : CHANNEL :=
  let cp := SCHANremove (RCHANremove (WCHANremove cp))
  { cp with
    type := .CTfree
    State := .CSerror
    Out := if BIG_BUFFER < cp.Out.data.length then bufferNew else cp.Out }

def NCwritedone (cp : CHANNEL) : CHANNEL :=
  match cp.State with
  | .CSwritegoodbye => CHANclose cp
  | .CSgetcmd => RCHANadd cp
  | .CSgetheader => RCHANadd cp
  | .CSgetbody => RCHANadd cp
  | .CSgetxbatch => RCHANadd cp
  | .CSgotlargearticle => RCHANadd cp
  | .CScancel => RCHANadd cp
  | _ => cp

def CHANNEL.sent (cp : CHANNEL) (taken : Octets) : CHANNEL :=
  { cp with
    Out := cp.Out.consume taken.length
    wire := cp.wire ++ taken }

def NCwritedirect (cp : CHANNEL) (result : Write) : CHANNEL :=
  let taken := result.taken cp.Out.waiting
  if cp.Out.used + taken.length = cp.Out.left then
    let done := NCwritedone { cp.sent taken with Out := cp.Out.clear }
    if taken = [] then WCHANadd done else done
  else
    WCHANadd (cp.sent taken)

def NCwritereply (cp : CHANNEL) (text : Octets) (result : Write) : CHANNEL :=
  let appended := WCHANappend (WCHANappend cp text) NCterm
  if cp.Out.left = 0 then NCwritedirect appended result else WCHANadd appended

def goodbye (text : Octets) : Octets :=
  (octets NNTP_FAIL_TERMINATING ++ octets " " ++ text ++ NCterm).take (SMBUF - 1)

def NCwriteshutdown (cp : CHANNEL) (text : Octets) : CHANNEL :=
  WCHANadd (WCHANappend (RCHANremove { cp with State := .CSwritegoodbye }) (goodbye text))

def writePieces : List Write → Octets → Octets → Octets × Option Errno
  | _, taken, [] => (taken, none)
  | [], taken, _ => (taken, if taken = [] then some Errno.EIO else none)
  | .fails .EINTR :: results, taken, rest => writePieces results taken rest
  | .fails errno :: _, taken, _ => (taken, if taken = [] then some errno else none)
  | .takes count :: results, taken, rest =>
    match (rest.take BUFSIZ).take count with
    | [] => (taken, none)
    | piece => writePieces results (taken ++ piece) (rest.drop piece.length)

def CHANwrite : List Write → Octets → Octets × Option Errno
  | [], _ => ([], some Errno.EIO)
  | .fails .EINTR :: results, data => CHANwrite results data
  | .fails .EMSGSIZE :: results, data => writePieces results [] data
  | .fails errno :: _, _ => ([], some errno)
  | .takes count :: results, data =>
    match data.take count with
    | [] => writePieces results [] data
    | taken => (taken, none)

def CHANwritesleep (innconf : Innconf) (Now : Nat) (cp : CHANNEL) : CHANNEL :=
  let bad := cp.BlockedWrites + 1
  if innconf.badiocount < bad then
    CHANclose { cp with BlockedWrites := bad }
  else
    SCHANadd { cp with BlockedWrites := bad } (Now + bad * innconf.blockbackoff)

def CHANwritefailed (innconf : Innconf) (Now : Nat) (cp : CHANNEL)
    (errno : Option Errno) : CHANNEL :=
  let cp := { cp with BadWrites := cp.BadWrites + 1 }
  if errno = some .EPIPE then
    CHANclose cp
  else if errno = some .EAGAIN ∨ errno = some .EWOULDBLOCK then
    CHANwritesleep innconf Now (WCHANremove cp)
  else if innconf.badiocount ≤ cp.BadWrites then
    SCHANadd (WCHANremove cp) (Now + innconf.pauseretrytime)
  else
    cp

def CHANhandle_write (innconf : Innconf) (Now : Nat) (cp : CHANNEL)
    (results : List Write) : CHANNEL :=
  if cp.Out.left = 0 then
    WCHANremove cp
  else
    match CHANwrite results cp.Out.waiting with
    | ([], errno) => CHANwritefailed innconf Now cp errno
    | (taken, _) =>
      let cp := { cp.sent taken with BadWrites := 0, BlockedWrites := 0 }
      if 0 < cp.Out.left then { cp with Out := bufferCompact cp.Out } else NCwritedone
        (WCHANremove cp)

def CHANwakeup (Now : Nat) (cp : CHANNEL) : CHANNEL :=
  match cp.Waketime with
  | some wake => if wake ≤ Now then WCHANadd (SCHANremove cp) else cp
  | none => cp

inductive Action
  /-- A command changes the state before it replies. -/
  | state (State : ChannelState)
  /-- A line of a reply that does not end with it. -/
  | append (text : Octets)
  | writereply (text : Octets) (result : Write)
  | writeshutdown (text : Octets)
  /-- The descriptor is ready for writing. -/
  | handleWrite (Now : Nat) (results : List Write)
  /-- The channel's sleep is over. -/
  | wakeup (Now : Nat)
  /-- A command arrived. -/
  | command
  | close

def Action.text : Action → Octets
  | .append text => text
  | .writereply text _ => text ++ NCterm
  | .writeshutdown text => goodbye text
  | _ => []

def perform (innconf : Innconf) (cp : CHANNEL) : Action → CHANNEL
  | .state State => { cp with State := State }
  | .append text => WCHANappend cp text
  | .writereply text result => NCwritereply cp text result
  | .writeshutdown text => NCwriteshutdown cp text
  | .handleWrite Now results => if cp.writing then CHANhandle_write innconf Now cp results else cp
  | .wakeup Now => CHANwakeup Now cp
  | .command => SCHANremove cp
  | .close => CHANclose cp

def step (innconf : Innconf) (cp : CHANNEL) (action : Action) : CHANNEL :=
  if cp.type = .CTfree then cp else perform innconf cp action

/-- What is sent and what is waiting are what was queued, in order. -/
structure InOrder (queued : Octets) (cp : CHANNEL) : Prop where
  order : cp.wire ++ cp.Out.waiting = queued
  reset : cp.Out.left = 0 → cp.Out.used = 0

structure Delivers (queued : Octets) (cp : CHANNEL) : Prop where
  front : cp.wire <+: queued
  open_order : cp.type ≠ .CTfree → InOrder queued cp

variable {queued : Octets} {cp : CHANNEL}

theorem InOrder.delivers (horder : InOrder queued cp) : Delivers queued cp where
  front := ⟨cp.Out.waiting, horder.order⟩
  open_order := fun _ => horder

theorem CHANcreate_inOrder (Out : Buffer) : InOrder [] (CHANcreate Out) where
  order := rfl
  reset := fun _ => rfl

theorem WCHANappend_inOrder (horder : InOrder queued cp) (text : Octets) :
    InOrder (queued ++ text) (WCHANappend cp text) where
  order := by
    rw [← horder.order, List.append_assoc, ← waiting_append]
    rfl
  reset := by
    change (bufferAppend cp.Out text).left = 0 → (bufferAppend cp.Out text).used = 0
    unfold bufferAppend
    split
    next _ => exact horder.reset
    next hnil =>
      intro hleft
      exact absurd (List.eq_nil_of_length_eq_zero (Nat.eq_zero_of_add_eq_zero hleft).2) hnil

theorem WCHANappend_used (cp : CHANNEL) (text : Octets) :
    (WCHANappend cp text).Out.used = cp.Out.used := by
  change (bufferAppend cp.Out text).used = cp.Out.used
  unfold bufferAppend
  split <;> rfl

theorem WCHANadd_inOrder (horder : InOrder queued cp) : InOrder queued (WCHANadd cp) := by
  unfold WCHANadd
  split
  · exact ⟨horder.order, horder.reset⟩
  · exact horder

theorem WCHANremove_inOrder (horder : cp.wire ++ cp.Out.waiting = queued)
    (hreset : cp.Out.left = 0 → cp.Out.used = 0 ∨ cp.writing = true) :
    InOrder queued (WCHANremove cp) := by
  unfold WCHANremove
  split
  next _ =>
    by_cases hleft : cp.Out.left = 0
    · constructor
      · simp only [hleft, if_true]
        rw [← horder, Buffer.waiting_eq_nil hleft]
        rfl
      · intro _
        simp only [hleft, if_true]
        rfl
    · constructor
      · simp only [hleft, if_false]
        exact horder
      · simp only [hleft, if_false]
        exact fun h => absurd h id
  next hwriting =>
    exact ⟨horder, fun hleft => (hreset hleft).resolve_right hwriting⟩

@[simp] theorem WCHANremove_wire (cp : CHANNEL) : (WCHANremove cp).wire = cp.wire := by
  unfold WCHANremove
  split <;> rfl

theorem CHANclose_delivers (hfront : cp.wire <+: queued) : Delivers queued (CHANclose cp) where
  front := by
    change (WCHANremove cp).wire <+: queued
    rw [WCHANremove_wire]
    exact hfront
  open_order := fun hopen => absurd rfl hopen

theorem NCwritedone_delivers (horder : InOrder queued cp) : Delivers queued (NCwritedone cp) := by
  have hsame : InOrder queued (RCHANadd cp) := ⟨horder.order, horder.reset⟩
  unfold NCwritedone
  split
  · exact CHANclose_delivers ⟨cp.Out.waiting, horder.order⟩
  all_goals first | exact hsame.delivers | exact horder.delivers

theorem WCHANadd_delivers (hdelivers : Delivers queued cp) : Delivers queued (WCHANadd cp) := by
  unfold WCHANadd
  split
  · exact ⟨hdelivers.front,
      fun hopen => ⟨(hdelivers.open_order hopen).order, (hdelivers.open_order hopen).reset⟩⟩
  · exact hdelivers

theorem taken_front (result : Write) (data : Octets) : result.taken data <+: data := by
  cases result with
  | takes count => exact List.take_prefix count data
  | fails errno => exact List.nil_prefix

theorem writePieces_front (results : List Write) (taken rest : Octets) :
    taken <+: (writePieces results taken rest).1 ∧
      (writePieces results taken rest).1 <+: taken ++ rest := by
  fun_induction writePieces results taken rest with
  | case1 results taken => exact ⟨List.prefix_rfl, List.prefix_append taken []⟩
  | case2 taken rest _ => exact ⟨List.prefix_rfl, List.prefix_append taken rest⟩
  | case3 results taken rest _ ih => exact ih
  | case4 errno results taken rest _ _ => exact ⟨List.prefix_rfl, List.prefix_append taken rest⟩
  | case5 count results taken rest _ _ => exact ⟨List.prefix_rfl, List.prefix_append taken rest⟩
  | case6 count results taken rest _ _ ih =>
    have hfront : (rest.take BUFSIZ).take count <+: rest :=
      (List.take_prefix count _).trans (List.take_prefix BUFSIZ rest)
    rw [List.append_assoc, List.prefix_iff_eq_append.mp hfront] at ih
    exact ⟨(List.prefix_append taken _).trans ih.1, ih.2⟩

theorem CHANwrite_front (results : List Write) (data : Octets) :
    (CHANwrite results data).1 <+: data := by
  fun_induction CHANwrite results data with
  | case1 data => exact List.nil_prefix
  | case2 results data ih => exact ih
  | case3 results data => exact (writePieces_front results [] data).2
  | case4 errno results data _ _ => exact List.nil_prefix
  | case5 count results data _ => exact (writePieces_front results [] data).2
  | case6 count results data _ => exact List.take_prefix count data

theorem sent_order (horder : cp.wire ++ cp.Out.waiting = queued) {taken : Octets}
    (htaken : taken <+: cp.Out.waiting) :
    (cp.sent taken).wire ++ (cp.sent taken).Out.waiting = queued := by
  change cp.wire ++ taken ++ (cp.Out.consume taken.length).waiting = queued
  rw [waiting_consume, List.append_assoc, List.prefix_iff_eq_append.mp htaken, horder]

theorem NCwritedirect_delivers (horder : InOrder queued cp) (hused : cp.Out.used = 0)
    (result : Write) :
    Delivers queued (NCwritedirect cp result) := by
  have htaken := taken_front result cp.Out.waiting
  have hlength := htaken.length_le
  rw [cp.Out.waiting_length] at hlength
  unfold NCwritedirect
  simp only [hused, Nat.zero_add]
  split
  next hall =>
    have hwhole : result.taken cp.Out.waiting = cp.Out.waiting :=
      htaken.eq_of_length (hall.trans cp.Out.waiting_length.symm)
    have hsent :
        InOrder queued { cp.sent (result.taken cp.Out.waiting) with Out := cp.Out.clear } := by
      constructor
      · change cp.wire ++ result.taken cp.Out.waiting ++ cp.Out.clear.waiting = queued
        rw [hwhole, horder.order, Buffer.waiting_eq_nil rfl, List.append_nil]
      · exact fun _ => rfl
    split
    · exact WCHANadd_delivers (NCwritedone_delivers hsent)
    · exact NCwritedone_delivers hsent
  next hsome =>
    apply InOrder.delivers
    apply WCHANadd_inOrder
    constructor
    · exact sent_order horder.order htaken
    · intro hleft
      have hzero : cp.Out.left - (result.taken cp.Out.waiting).length = 0 := hleft
      omega

theorem NCwritereply_delivers (horder : InOrder queued cp) (text : Octets) (result : Write) :
    Delivers (queued ++ (text ++ NCterm)) (NCwritereply cp text result) := by
  have happended := WCHANappend_inOrder (WCHANappend_inOrder horder text) NCterm
  rw [List.append_assoc] at happended
  unfold NCwritereply
  split
  next hleft =>
    apply NCwritedirect_delivers happended
    exact (WCHANappend_used _ _).trans ((WCHANappend_used _ _).trans (horder.reset hleft))
  next _ => exact (WCHANadd_inOrder happended).delivers

theorem NCwriteshutdown_delivers (horder : InOrder queued cp) (text : Octets) :
    Delivers (queued ++ goodbye text) (NCwriteshutdown cp text) := by
  have hstate : InOrder queued (RCHANremove { cp with State := .CSwritegoodbye }) :=
    ⟨horder.order, horder.reset⟩
  exact (WCHANadd_inOrder (WCHANappend_inOrder hstate (goodbye text))).delivers

theorem CHANwritesleep_delivers (innconf : Innconf) (Now : Nat) (horder : InOrder queued cp) :
    Delivers queued (CHANwritesleep innconf Now cp) := by
  unfold CHANwritesleep
  simp only
  split
  · exact CHANclose_delivers horder.delivers.front
  · exact InOrder.delivers ⟨horder.order, horder.reset⟩

theorem CHANwritefailed_delivers (innconf : Innconf) (Now : Nat) (horder : InOrder queued cp)
    (errno : Option Errno) :
    Delivers queued (CHANwritefailed innconf Now cp errno) := by
  have hcounted : InOrder queued { cp with BadWrites := cp.BadWrites + 1 } :=
    ⟨horder.order, horder.reset⟩
  have hremoved := WCHANremove_inOrder hcounted.order fun hleft => .inl (hcounted.reset hleft)
  unfold CHANwritefailed
  simp only
  split
  · exact CHANclose_delivers hcounted.delivers.front
  split
  · exact CHANwritesleep_delivers innconf Now hremoved
  split
  · exact InOrder.delivers ⟨hremoved.order, hremoved.reset⟩
  · exact hcounted.delivers

theorem CHANhandle_write_delivers (innconf : Innconf) (Now : Nat) (horder : InOrder queued cp)
    (hwriting : cp.writing = true) (results : List Write) :
    Delivers queued (CHANhandle_write innconf Now cp results) := by
  have hfront := CHANwrite_front results cp.Out.waiting
  unfold CHANhandle_write
  split
  · exact (WCHANremove_inOrder horder.order fun hleft => .inl (horder.reset hleft)).delivers
  next hleft =>
    split
    · exact CHANwritefailed_delivers innconf Now horder _
    next taken errno htaken heq =>
      rw [heq] at hfront
      have hsent := sent_order horder.order hfront
      simp only
      split
      next hrest =>
        apply InOrder.delivers
        constructor
        · change (cp.sent taken).wire ++ (bufferCompact (cp.sent taken).Out).waiting = queued
          rw [waiting_compact]
          exact hsent
        · intro hnone
          exact absurd (hnone.symm.trans (bufferCompact_left _)) (Nat.ne_of_lt hrest)
      next hrest =>
        apply NCwritedone_delivers
        exact WCHANremove_inOrder hsent fun _ => .inr hwriting

theorem CHANwakeup_inOrder (Now : Nat) (horder : InOrder queued cp) :
    InOrder queued (CHANwakeup Now cp) := by
  unfold CHANwakeup
  split
  next wake _ =>
    split
    · exact WCHANadd_inOrder ⟨horder.order, horder.reset⟩
    · exact horder
  next _ => exact horder

theorem perform_delivers (innconf : Innconf) (horder : InOrder queued cp) (action : Action) :
    Delivers (queued ++ action.text) (perform innconf cp action) := by
  have hsame : InOrder (queued ++ []) cp := by
    rw [List.append_nil]
    exact horder
  cases action with
  | state State => exact InOrder.delivers ⟨hsame.order, hsame.reset⟩
  | append text => exact (WCHANappend_inOrder horder text).delivers
  | writereply text result => exact NCwritereply_delivers horder text result
  | writeshutdown text => exact NCwriteshutdown_delivers horder text
  | handleWrite Now results =>
    change Delivers _ (if cp.writing then _ else cp)
    split
    next hwriting => exact CHANhandle_write_delivers innconf Now hsame hwriting results
    next _ => exact hsame.delivers
  | wakeup Now => exact (CHANwakeup_inOrder Now hsame).delivers
  | command => exact InOrder.delivers ⟨hsame.order, hsame.reset⟩
  | close => exact CHANclose_delivers hsame.delivers.front

theorem step_delivers (innconf : Innconf) (hdelivers : Delivers queued cp) (action : Action) :
    Delivers (queued ++ action.text) (step innconf cp action) := by
  unfold step
  split
  next hclosed => exact ⟨hdelivers.front.trans (List.prefix_append _ _),
    fun hopen => absurd hclosed hopen⟩
  next hopen => exact perform_delivers innconf (hdelivers.open_order hopen) action

theorem run_delivers (innconf : Innconf) (actions : List Action) (hdelivers : Delivers queued cp) :
    Delivers (queued ++ actions.flatMap Action.text) (actions.foldl (step innconf) cp) := by
  induction actions generalizing queued cp with
  | nil =>
    rw [List.flatMap_nil, List.append_nil]
    exact hdelivers
  | cons action rest ih =>
    rw [List.flatMap_cons, ← List.append_assoc]
    exact ih (step_delivers innconf hdelivers action)

/-- However the writes turn out, the octets that reach the descriptor are a front part of the
replies in the order they were queued, and all of them when the output buffer of an open
channel becomes empty. -/
theorem replies_in_order (innconf : Innconf) (Out : Buffer) (actions : List Action) :
    (actions.foldl (step innconf) (CHANcreate Out)).wire <+: actions.flatMap Action.text ∧
      ((actions.foldl (step innconf) (CHANcreate Out)).type ≠ .CTfree →
        (actions.foldl (step innconf) (CHANcreate Out)).Out.left = 0 →
          (actions.foldl (step innconf) (CHANcreate Out)).wire = actions.flatMap Action.text) := by
  have hdelivers := run_delivers innconf actions (CHANcreate_inOrder Out).delivers
  rw [List.nil_append] at hdelivers
  refine ⟨hdelivers.front, fun hopen hleft => ?_⟩
  rw [← (hdelivers.open_order hopen).order, Buffer.waiting_eq_nil hleft, List.append_nil]

end Inn.Innd.Nntp
