import Inn.Foundation.Walking
import Inn.Storage.Names
import Inn.Storage.Retrieval

/-!
# timehash

Each article is a file whose path has the storage class, the time of arrival and a sequence
number. The walk over the articles reads the directories, and takes the token of an article from
the names that lead to it.
-/

namespace Inn.Storage.Timehash

open Function (update update_self update_of_ne)
open Foundation.Walking

structure Token where
  tokenclass : UInt8
  arrival : UInt32
  seqnum : UInt16
  deriving DecidableEq

structure Path where
  top : Octets
  sec : Octets
  ter : Octets
  art : Octets
  deriving DecidableEq

def topStart : Octets := [116, 105, 109, 101, 45]

def MakePath (now seqnum tokenclass : Nat) : Path where
  top := topStart ++ hexDigits 2 tokenclass
  sec := hexDigits 2 (now / 2 ^ 16 % 2 ^ 8)
  ter := hexDigits 2 (now / 2 ^ 8 % 2 ^ 8)
  art := hexDigits 4 seqnum ++ 45 :: hexDigits 4 (now / 2 ^ 24 % 2 ^ 8 * 2 ^ 8 + now % 2 ^ 8)

def MakeToken (now seqnum tokenclass : Nat) : Token :=
    ⟨UInt8.ofNat tokenclass, UInt32.ofNat now, UInt16.ofNat seqnum⟩

def Token.path (token : Token) : Path :=
    MakePath token.arrival.toNat token.seqnum.toNat token.tokenclass.toNat

def PathToToken (path : Path) : Token :=
  let tclass := readHex (path.top.drop 5)
  let t1 := readHex path.sec
  let t2 := readHex path.ter
  let seqnum := readHex (path.art.take 4)
  let t3 := readHex (path.art.drop 5)
  -- the masks take different octets of the time
  MakeToken (t1 % 2 ^ 8 * 2 ^ 16 + t2 % 2 ^ 8 * 2 ^ 8 + t3 / 2 ^ 8 % 2 ^ 8 * 2 ^ 24 +
    t3 % 2 ^ 8) seqnum tclass

def isTopdir (name : Octets) : Bool := isName topStart 2 name

def isArt (name : Octets) : Bool :=
  name.length = 9 && (name.take 4).all isxdigit && (name.drop 5).all isxdigit && name.getD 4 0 = 45

def Path.Taken (path : Path) : Prop :=
    isTopdir path.top ∧ isDir path.sec ∧ isDir path.ter ∧ isArt path.art

theorem MakePath_taken (now seqnum tokenclass : Nat) : (MakePath now seqnum tokenclass).Taken := by
  refine ⟨isName_hexDigits _ _ _, isName_hexDigits [] _ _, isName_hexDigits [] _ _, ?_⟩
  have hseq := hexDigits_length 4 seqnum
  have hdrop (n : Nat) (text : Octets) : (hexDigits 4 n ++ 45 :: text).drop 5 = text := by
    rw [List.drop_append, hexDigits_length,
      List.drop_of_length_le (by rw [hexDigits_length]; decide)]
    rfl
  unfold isArt MakePath
  rw [hdrop, List.take_left' hseq, List.length_append, List.length_cons, hexDigits_length,
    hexDigits_length,
    hexDigits_isxdigit, hexDigits_isxdigit, List.getD_eq_getElem?_getD,
      List.getElem?_append_right (Nat.le_of_eq hseq), hseq]
  rfl

theorem scattered {now : Nat} (hnow : now < 2 ^ 32) :
    now / 2 ^ 16 % 2 ^ 8 % 16 ^ 2 % 2 ^ 8 * 2 ^ 16 + now / 2 ^ 8 % 2 ^ 8 % 16 ^ 2 % 2 ^ 8 * 2 ^ 8 +
      (now / 2 ^ 24 % 2 ^ 8 * 2 ^ 8 + now % 2 ^ 8) % 16 ^ 4 / 2 ^ 8 % 2 ^ 8 * 2 ^ 24 +
      (now / 2 ^ 24 % 2 ^ 8 * 2 ^ 8 + now % 2 ^ 8) % 16 ^ 4 % 2 ^ 8 = now := by
  have hpart (n : Nat) : n % 2 ^ 8 % 16 ^ 2 % 2 ^ 8 = n % 2 ^ 8 := by omega
  have hlow : now % 2 ^ 8 < 2 ^ 8 := Nat.mod_lt _ (by decide)
  have hhigh : now / 2 ^ 24 % 2 ^ 8 < 2 ^ 8 := Nat.mod_lt _ (by decide)
  have hjoined : (now / 2 ^ 24 % 2 ^ 8 * 2 ^ 8 + now % 2 ^ 8) % 16 ^ 4 =
      now / 2 ^ 24 % 2 ^ 8 * 2 ^ 8 + now % 2 ^ 8 :=
    Nat.mod_eq_of_lt (by omega)
  have hfirst : (now / 2 ^ 24 % 2 ^ 8 * 2 ^ 8 + now % 2 ^ 8) / 2 ^ 8 % 2 ^ 8 =
      now / 2 ^ 24 % 2 ^ 8 := by omega
  have hlast : (now / 2 ^ 24 % 2 ^ 8 * 2 ^ 8 + now % 2 ^ 8) % 2 ^ 8 = now % 2 ^ 8 := by omega
  have h16 : now / 2 ^ 16 = now / 2 ^ 8 / 2 ^ 8 := (Nat.div_div_eq_div_mul now (2 ^ 8) (2 ^ 8)).symm
  have h24 : now / 2 ^ 24 = now / 2 ^ 8 / 2 ^ 8 / 2 ^ 8 := by
    rw [← h16]
    exact (Nat.div_div_eq_div_mul now (2 ^ 16) (2 ^ 8)).symm
  rw [hpart, hpart, hjoined, hfirst, hlast, h24, h16]
  omega

theorem PathToToken_path (token : Token) : PathToToken token.path = token := by
  obtain ⟨tokenclass, arrival, seqnum⟩ := token
  have hclass := tokenclass.toNat_lt
  have htime := arrival.toNat_lt
  have hseq := seqnum.toNat_lt
  have hdrop (n : Nat) (text : Octets) : (hexDigits 4 n ++ 45 :: text).drop 5 = text := by
    rw [List.drop_append, hexDigits_length,
      List.drop_of_length_le (by rw [hexDigits_length]; decide)]
    rfl
  have htop : (topStart ++ hexDigits 2 tokenclass.toNat).drop 5 = hexDigits 2 tokenclass.toNat :=
    List.drop_left' (by rfl)
  unfold PathToToken Token.path MakePath MakeToken
  dsimp only
  rw [htop, hdrop, List.take_left' (hexDigits_length 4 _), readHex_hexDigits, readHex_hexDigits,
    readHex_hexDigits,
    readHex_hexDigits, readHex_hexDigits]
  congr 1
  · rw [show tokenclass.toNat % 16 ^ 2 = tokenclass.toNat from Nat.mod_eq_of_lt hclass,
      UInt8.ofNat_toNat]
  · rw [scattered htime, UInt32.ofNat_toNat]
  · rw [show seqnum.toNat % 16 ^ 4 = seqnum.toNat from Nat.mod_eq_of_lt hseq, UInt16.ofNat_toNat]

theorem path_injective : Function.Injective Token.path :=
  Function.LeftInverse.injective PathToToken_path

structure Spool where
  files : Path → Option Octets
  SeqNum : UInt16

def findSeq (files : Path → Option Octets) (now tokenclass : Nat) :
    Nat → UInt16 → Option UInt16 × UInt16
  | 0, SeqNum => (none, SeqNum)
  | i + 1, SeqNum =>
    if (files (MakePath now SeqNum.toNat tokenclass)).isSome then findSeq files now tokenclass
      i (SeqNum + 1)
    else (some SeqNum, SeqNum + 1)

def Spool.timehashStore (s : Spool) (tokenclass : UInt8) (arrived now : UInt32) (octets : Octets) :
    Option Token × Spool :=
  let now := if arrived = 0 then now else arrived
  match findSeq s.files now.toNat tokenclass.toNat 0x10000 s.SeqNum with
  | (none, SeqNum) => (none, { s with SeqNum })
  | (some seq, SeqNum) =>
    (some (MakeToken now.toNat seq.toNat tokenclass.toNat),
      ⟨update s.files (MakePath now.toNat seq.toNat tokenclass.toNat) (some octets), SeqNum⟩)

def Spool.timehashCancel (s : Spool) (token : Token) : Spool :=
    { s with files := update s.files token.path none }

def OpenArticle (articlemmap : Bool) (files : Path → Option Octets) (path : Path)
    (amount : RetrType) : Option ArtHandle :=
  (files path).bind fun file => timehashOpenArticle articlemmap file amount

def Spool.timehashRetrieve (s : Spool) (articlemmap : Bool) (token : Token) (amount : RetrType) :
    Option (ArtHandle × UInt32) :=
  (OpenArticle articlemmap s.files token.path amount).map fun art => (art, token.arrival)

theorem findSeq_free {files : Path → Option Octets} {now tokenclass i : Nat}
    {SeqNum seq next : UInt16} (hfind : findSeq files now tokenclass i SeqNum = (some seq, next)) :
    files (MakePath now seq.toNat tokenclass) = none := by
  induction i generalizing SeqNum with
  | zero => cases hfind
  | succ i ih =>
    unfold findSeq at hfind
    split at hfind
    · exact ih hfind
    next hfree =>
      obtain ⟨hseq, _⟩ := Prod.mk.inj hfind
      cases hseq
      simpa using hfree

theorem findSeq_isSome {files : Path → Option Octets} {now tokenclass i d : Nat}
    {SeqNum : UInt16} (hd : d < i)
    (hfree : files (MakePath now (SeqNum + UInt16.ofNat d).toNat tokenclass) = none) :
    (findSeq files now tokenclass i SeqNum).1.isSome := by
  induction i generalizing SeqNum d with
  | zero => exact absurd hd (Nat.not_lt_zero d)
  | succ i ih =>
    unfold findSeq
    split
    next htaken =>
      cases d with
      | zero =>
        have hsame : SeqNum + UInt16.ofNat 0 = SeqNum := UInt16.add_zero SeqNum
        rw [hsame] at hfree
        rw [hfree] at htaken
        cases htaken
      | succ d =>
        refine ih (Nat.lt_of_succ_lt_succ hd) ?_
        have hnext : SeqNum + UInt16.ofNat (d + 1) = SeqNum + 1 + UInt16.ofNat d := by
          rw [UInt16.ofNat_add, UInt16.add_assoc, UInt16.add_comm (UInt16.ofNat d)]
          rfl
        rw [← hnext]
        exact hfree
    next => rfl

theorem store_isSome {s : Spool} {tokenclass : UInt8} {arrived now : UInt32} {octets : Octets}
    {seq : UInt16} (hfree : s.files (MakePath (if arrived = 0 then now else arrived).toNat seq.toNat
      tokenclass.toNat) = none) :
    (s.timehashStore tokenclass arrived now octets).1.isSome := by
  have hfound :
      (findSeq s.files (if arrived = 0 then now else arrived).toNat tokenclass.toNat 0x10000
        s.SeqNum).1.isSome := by
    refine findSeq_isSome (d := (seq - s.SeqNum).toNat) (UInt16.toNat_lt _) ?_
    rw [UInt16.ofNat_toNat, UInt16.add_comm, UInt16.sub_add_cancel]
    exact hfree
  unfold Spool.timehashStore
  dsimp only
  cases hfind :
    findSeq s.files (if arrived = 0 then now else arrived).toNat tokenclass.toNat
    0x10000 s.SeqNum with
  | mk seq next =>
    rw [hfind] at hfound
    cases seq with
    | none => cases hfound
    | some seq => rfl

inductive Event
  | store (tokenclass : UInt8) (arrived now : UInt32) (octets : Octets)
  | cancel (token : Token)

def Spool.step (s : Spool) : Event → Spool
  | .store tokenclass arrived now octets => (s.timehashStore tokenclass arrived now octets).2
  | .cancel token => s.timehashCancel token

inductive Status
  | unknown
  | live (octets : Octets)
  | cancelled

def record (s : Spool) (status : Token → Status) : Event → Token → Status
  | .store tokenclass arrived now octets =>
    match (s.timehashStore tokenclass arrived now octets).1 with
    | some token => update status token (.live octets)
    | none => status
  | .cancel token => update status token .cancelled

inductive Run (start : Spool) : Spool → (Token → Status) → Prop
  | start : Run start start fun _ => .unknown
  | step {s status} (hrun : Run start s status) (event : Event) :
      Run start (s.step event) (record s status event)

/-- The files are those of the articles that are live. -/
def Agrees (start : Spool) (s : Spool) (status : Token → Status) : Prop :=
  ∀ token : Token, s.files token.path = match status token with
    | .unknown => start.files token.path
    | .live octets => some octets
    | .cancelled => none

theorem store_cases (s : Spool) (tokenclass : UInt8) (arrived now : UInt32) (octets : Octets) :
    ((s.timehashStore tokenclass arrived now octets).1 = none ∧
      (s.timehashStore tokenclass arrived now octets).2.files = s.files) ∨
      ∃ token : Token, (s.timehashStore tokenclass arrived now octets).1 = some token ∧
        s.files token.path = none ∧
        token.tokenclass = tokenclass ∧ token.arrival = (if arrived = 0 then now else arrived) ∧
        (s.timehashStore tokenclass arrived now octets).2.files =
          update s.files token.path (some octets) := by
  unfold Spool.timehashStore
  dsimp only
  generalize (if arrived = 0 then now else arrived) = arrival
  cases hfind : findSeq s.files arrival.toNat tokenclass.toNat 0x10000 s.SeqNum with
  | mk seq next =>
    cases seq with
    | none => exact .inl ⟨rfl, rfl⟩
    | some seq =>
      have htoken :
          MakeToken arrival.toNat seq.toNat tokenclass.toNat = ⟨tokenclass, arrival, seq⟩ := by
        rw [MakeToken, UInt8.ofNat_toNat, UInt32.ofNat_toNat, UInt16.ofNat_toNat]
      refine .inr ⟨⟨tokenclass, arrival, seq⟩, ?_, ?_, rfl, rfl, rfl⟩
      · dsimp only
        rw [htoken]
      · exact findSeq_free hfind

theorem run_agrees {start s : Spool} {status : Token → Status} (hrun : Run start s status) :
    Agrees start s status := by
  induction hrun with
  | start => exact fun _ => rfl
  | @step s status _ event ih =>
    have hupdate {token other : Token} (hne : other ≠ token) : other.path ≠ token.path :=
      fun h => hne (path_injective h)
    intro other
    cases event with
    | store tokenclass arrived now octets =>
      unfold Spool.step record
      rcases store_cases s tokenclass arrived now octets with ⟨hnone, hfiles⟩ | ⟨token, hsome,
        _, _, _, hfiles⟩
      · dsimp only
        rw [hfiles, hnone]
        exact ih other
      · dsimp only
        rw [hfiles, hsome]
        dsimp only
        by_cases hother : other = token
        · subst hother
          rw [update_self, update_self]
        · rw [update_of_ne (hupdate hother), update_of_ne hother]
          exact ih other
    | cancel token =>
      unfold Spool.step record Spool.timehashCancel
      dsimp only
      by_cases hother : other = token
      · subst hother
        rw [update_self, update_self]
      · rw [update_of_ne (hupdate hother), update_of_ne hother]
        exact ih other

end Inn.Storage.Timehash
