import Inn.Foundation.Splicing
import Inn.Innd.Fields

/-!
# Storing an article

The article that is stored is put together of slices of the one that has been
received: the Path is extended, the Xref is replaced or inserted, and the field
Bytes is left out.
-/

namespace Inn.Innd

open Foundation.Splicing

structure Site where
  pathhost : Octets
  pathalias : Option Octets
  pathcluster : Option Octets
  xrefslave : Bool

def hop (name : Octets) : Octets := name ++ octets "!"

def Site.Path (site : Site) : Octets := hop site.pathhost

def Site.Pathalias (site : Site) : Octets := (site.pathalias.map hop).getD []

def Site.Pathcluster (site : Site) : Octets := (site.pathcluster.map hop).getD []

def ARThostchar (c : UInt8) : Bool :=
  (97 ≤ c && c ≤ 122) || (65 ≤ c && c ≤ 90) || (48 ≤ c && c ≤ 57) || c = 46 || c = 45 || c = 95

def hopsFrom : Nat → Octets → List Octets
  | 0, _ => []
  | fuel + 1, p =>
    let p := p.dropWhile fun c => !ARThostchar c && ISWHITE c
    if p.isEmpty then []
    else
      let host := p.takeWhile fun c => ARThostchar c && !ISWHITE c
      host :: hopsFrom fuel (p.drop (host.length + 1))

def ARTparsepath (p : Octets) : List Octets :=
  let p := p.takeWhile (· ≠ 0)
  hopsFrom (p.length + 1) p

def sameHost (name other : Octets) : Bool :=
  let lower (c : UInt8) : UInt8 := if 65 ≤ c && c ≤ 90 then c + 32 else c
  name.map lower = other.map lower

structure PathData where
  Hassamepath : Bool
  Hassamecluster : Bool
  AddAlias : Bool

def checkPath (site : Site) (value : Octets) : PathData :=
  let hops := ARTparsepath value
  let first := hops.headD []
  { Hassamepath := sameHost first site.pathhost
    Hassamecluster := site.pathcluster.any fun name => sameHost first name
    AddAlias := site.pathalias.any fun name => !hops.any fun host => sameHost name host }

def PathData.extended (path : PathData) (site : Site) : Bool :=
  !path.Hassamepath || path.AddAlias || !site.Pathcluster.isEmpty

def Channel.HDR (cp : Channel) (i : Nat) : Nat := (cp.HdrContent i).Value.getD 0

def Channel.HDR_LEN (cp : Channel) (i : Nat) : Nat := (cp.HdrContent i).Length.toNat

def Channel.HDR_FOUND (cp : Channel) (i : Nat) : Bool := 0 < (cp.HdrContent i).Length

structure HEADERP where
  p : Nat
  index : Nat
  deriving DecidableEq

def headerPlaces (cp : Channel) : List HEADERP :=
  [⟨cp.HDR HDR_PATH, HDR_PATH⟩] ++
    (if cp.HDR_FOUND HDR_XREF then [⟨cp.HDR HDR_XREF, HDR_XREF⟩] else []) ++
    (if cp.HDR_FOUND HDR_BYTES then [⟨cp.HDR HDR_BYTES, HDR_BYTES⟩] else [])

abbrev Writing := Nat × List Octets

section Storing

variable (site : Site) (data Xref : Octets) (cp : Channel) (path : PathData)

def storeHeader (written : Writing) (hp : HEADERP) : Writing :=
  let (p, iov) := written
  if hp.index = HDR_PATH then
    if path.extended site then
      (cp.HDR HDR_PATH + if path.Hassamecluster then site.Pathcluster.length else 0,
        iov ++ [between data p (cp.HDR HDR_PATH)] ++
          (if site.Pathcluster.isEmpty then [] else [site.Pathcluster]) ++ [site.Path] ++
          (if path.AddAlias then [site.Pathalias] else []))
    else (p, iov)
  else if hp.index = HDR_XREF then
    if site.xrefslave then (p, iov)
    else
      -- the CRLF of the original field stays
      (cp.HDR HDR_XREF + cp.HDR_LEN HDR_XREF,
        iov ++ [between data p (cp.HDR HDR_XREF), Xref.take (Xref.length - 2)])
  else
    -- and that of Bytes does not
    (cp.HDR HDR_BYTES + cp.HDR_LEN HDR_BYTES + 2, iov ++ [between data p (cp.BytesHeader.getD 0)])

def storeXref (written : Writing) : Writing :=
  if cp.HDR_FOUND HDR_XREF then written
  else (cp.Body - 2, written.2 ++ [between data written.1 (cp.Body - 2), octets "Xref: ", Xref])

def ARTstore : Octets :=
  let path :=
    checkPath site (between data (cp.HDR HDR_PATH) (cp.HDR HDR_PATH + cp.HDR_LEN HDR_PATH))
  let places := (headerPlaces cp).insertionSort fun a b => a.p ≤ b.p
  let (p, iov) :=
    storeXref data Xref cp (places.foldl (storeHeader site data Xref cp path) (cp.Start, []))
  (iov ++ [between data p cp.Next]).flatten

end Storing

/-- The article is whole, and has all that is required. -/
structure Accepted (site : Site) (cp : Channel) : Prop where
  State : cp.State = .CSgotarticle
  Error : cp.Error = []
  required : ∀ i, (ARTheaders[i]?.any fun hp => hp.type = .HTreq) → cp.HDR_FOUND i
  slave : site.xrefslave → cp.HDR_FOUND HDR_XREF

def pathPrefix (site : Site) (value : Octets) : Octets :=
  let path := checkPath site value
  if path.extended site then
    site.Pathcluster ++ site.Path ++ if path.AddAlias then site.Pathalias else []
  else []

def pathSkip (site : Site) (value : Octets) : Nat :=
  if (checkPath site value).Hassamecluster then ((ARTparsepath value).headD []).length + 1 else 0

def fieldText (xrefslave : Bool) (i : Nat) (field : Octets) : Octets :=
  (field.drop (fieldValue xrefslave i field).1).take (fieldValue xrefslave i field).2

def storedField (site : Site) (Xref : Octets) (field : Octets) : Octets :=
  match fieldHeader field with
  | none => field
  | some i =>
    let (place, length) := fieldValue site.xrefslave i field
    let value := fieldText site.xrefslave i field
    if length = 0 then field
    else if i = HDR_PATH then field.take place ++ pathPrefix site value ++
      field.drop (place + pathSkip site value)
    else if i = HDR_XREF then if site.xrefslave then field else field.take place ++ Xref
    else if i = HDR_BYTES then []
    else field

structure Regular (site : Site) (fields : List Octets) : Prop where
  bytes : (fields.filter fun field => fieldHeader field = some HDR_BYTES).length ≤ 1
  xref : (fields.filter fun field => fieldHeader field = some HDR_XREF).length ≤ 1
  nonempty : ∀ field ∈ fields, ∀ i, fieldHeader field = some i → i = HDR_BYTES ∨ i = HDR_XREF →
    (fieldValue site.xrefslave i field).2 ≠ 0
  cluster : ∀ field ∈ fields, fieldHeader field = some HDR_PATH →
    (checkPath site (fieldText site.xrefslave HDR_PATH field)).Hassamecluster →
    ((fieldText site.xrefslave HDR_PATH field).head?.any ISWHITE) = false ∧
      ((ARTparsepath (fieldText site.xrefslave HDR_PATH field)).headD []).length <
        (fieldText site.xrefslave HDR_PATH field).length

def storedFields (site : Site) (Xref : Octets) (fields : List Octets) : List Octets :=
  fields.map (storedField site Xref) ++
    if fields.any fun field => fieldHeader field = some HDR_XREF then []
      else [octets "Xref: " ++ Xref]

end Inn.Innd
