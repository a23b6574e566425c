import Inn.Foundation.Scanning
import Inn.Octets

/-!
# Receiving an article

An article arrives on a channel in pieces. The header and the body are parsed as
far as they have arrived, and parsing goes on where it stopped when more is read.

Positions count from the start of the channel's buffer. A size limit is not set,
and the buffer is not moved while an article is received.
-/

namespace Inn.Innd

open Foundation.Scanning

inductive ChannelType
  | CTany
  | CTfree
  | CTremconn
  | CTreject
  | CTnntp
  | CTlocalconn
  | CTcontrol
  | CTfile
  | CTexploder
  | CTprocess
  deriving DecidableEq

inductive ChannelState
  | CSgetheader
  | CSgetbody
  | CSgotarticle
  | CSnoarticle
  | CSeatarticle
  | CSgotlargearticle
  deriving DecidableEq

inductive HeaderType
  | HTreq
  | HTobs
  | HTstd
  | HTsav
  deriving DecidableEq

structure ARTHEADER where
  Name : String
  type : HeaderType

def ARTheaders : List ARTHEADER :=
  [⟨"Approved", .HTstd⟩, ⟨"Control", .HTstd⟩, ⟨"Date", .HTreq⟩, ⟨"Distribution", .HTstd⟩,
   ⟨"Expires", .HTstd⟩, ⟨"From", .HTreq⟩, ⟨"Lines", .HTobs⟩, ⟨"Message-ID", .HTreq⟩,
   ⟨"Newsgroups", .HTreq⟩, ⟨"Path", .HTreq⟩, ⟨"Reply-To", .HTstd⟩, ⟨"Sender", .HTstd⟩,
   ⟨"Subject", .HTreq⟩, ⟨"Supersedes", .HTstd⟩, ⟨"Bytes", .HTobs⟩, ⟨"Also-Control", .HTobs⟩,
   ⟨"References", .HTstd⟩, ⟨"Xref", .HTsav⟩, ⟨"Keywords", .HTstd⟩, ⟨"X-Trace", .HTobs⟩,
   ⟨"Date-Received", .HTobs⟩, ⟨"Posted", .HTobs⟩, ⟨"Posting-Version", .HTobs⟩, ⟨"Received", .HTobs⟩,
   ⟨"Relay-Version", .HTobs⟩, ⟨"NNTP-Posting-Host", .HTobs⟩, ⟨"Followup-To", .HTstd⟩,
   ⟨"Organization", .HTstd⟩, ⟨"Content-Type", .HTstd⟩, ⟨"Content-Base", .HTstd⟩,
   ⟨"Content-Disposition", .HTstd⟩, ⟨"X-Newsreader", .HTstd⟩, ⟨"X-Mailer", .HTstd⟩,
   ⟨"X-Newsposter", .HTstd⟩, ⟨"X-Cancelled-By", .HTstd⟩, ⟨"X-Canceled-By", .HTstd⟩,
   ⟨"Cancel-Key", .HTstd⟩, ⟨"User-Agent", .HTstd⟩, ⟨"X-Original-Message-ID", .HTstd⟩,
   ⟨"Cancel-Lock", .HTstd⟩, ⟨"Content-Transfer-Encoding", .HTstd⟩, ⟨"Face", .HTstd⟩,
   ⟨"Injection-Info", .HTstd⟩, ⟨"List-ID", .HTstd⟩, ⟨"MIME-Version", .HTstd⟩,
   ⟨"Originator", .HTstd⟩, ⟨"X-Auth", .HTstd⟩, ⟨"X-Complaints-To", .HTobs⟩, ⟨"X-Face", .HTstd⟩,
   ⟨"X-HTTP-UserAgent", .HTstd⟩, ⟨"X-HTTP-Via", .HTstd⟩, ⟨"X-Modbot", .HTstd⟩,
   ⟨"X-Modtrace", .HTstd⟩, ⟨"X-No-Archive", .HTobs⟩, ⟨"X-Original-Trace", .HTstd⟩,
   ⟨"X-Originating-IP", .HTstd⟩, ⟨"X-PGP-Key", .HTstd⟩, ⟨"X-PGP-Sig", .HTstd⟩,
   ⟨"X-Poster-Trace", .HTstd⟩, ⟨"X-Postfilter", .HTstd⟩, ⟨"X-Proxy-User", .HTstd⟩,
   ⟨"X-Submissions-To", .HTstd⟩, ⟨"X-Usenet-Provider", .HTstd⟩, ⟨"In-Reply-To", .HTstd⟩,
   ⟨"Injection-Date", .HTstd⟩, ⟨"NNTP-Posting-Date", .HTobs⟩, ⟨"X-User-ID", .HTstd⟩,
   ⟨"X-Auth-Sender", .HTstd⟩, ⟨"X-Original-NNTP-Posting-Host", .HTstd⟩, ⟨"Original-Sender", .HTstd⟩,
   ⟨"NNTP-Posting-Path", .HTobs⟩, ⟨"Archive", .HTstd⟩, ⟨"Archived-At", .HTstd⟩, ⟨"Summary", .HTstd⟩,
   ⟨"Comments", .HTstd⟩, ⟨"Jabber-ID", .HTstd⟩]

def HDR_MESSAGE_ID : Nat := 7

def HDR_PATH : Nat := 9

def HDR_SUPERSEDES : Nat := 13

def HDR_BYTES : Nat := 14

def HDR_XREF : Nat := 17

/-- Where the value of a header is, or that it is repeated or missing. -/
structure HDRCONTENT where
  Value : Option Nat
  Length : Int
  deriving DecidableEq

structure Channel where
  State : ChannelState
  /-- Where the article starts, and what is to be parsed next. -/
  Start : Nat
  Next : Nat
  CurHeader : Nat
  Body : Nat
  Lines : Nat
  HeaderLines : Nat
  CRwithoutLF : Nat
  LFwithoutCR : Nat
  DotStuffedLines : Nat
  BytesHeader : Option Nat
  HdrContent : Nat → HDRCONTENT
  /-- Empty if there is no error. -/
  Error : Octets
  /-- Whether the article comes by IHAVE, not by TAKETHIS. -/
  ihave : Bool

def Channel.setHeader (cp : Channel) (i : Nat) (hc : HDRCONTENT) : Channel :=
  { cp with HdrContent := Function.update cp.HdrContent i hc }

def Channel.advance (cp : Channel) (State : ChannelState) (Next : Nat) : Channel :=
  { cp with State := State, Next := Next }

def ARTprepare (Start : Nat) (ihave : Bool) : Channel :=
  { State := .CSgetheader, Start := Start, Next := Start, CurHeader := Start,
    Body := Start, Lines := 0,
    HeaderLines := 0, CRwithoutLF := 0, LFwithoutCR := 0, DotStuffedLines := 0, BytesHeader := none,
    HdrContent := fun _ => { Value := none, Length := 0 }, Error := [], ihave := ihave }

def MaxLength (text : Octets) : Octets :=
  let text := text.takeWhile (· ≠ 0)
  let text := if text.length < 79 then text else text.take 76 ++ octets "..."
  text.map fun c => if c = LF || c = CR then 32 else c

def ARTerror (cp : Channel) (text : Octets) : Channel :=
  { cp with Error := octets (if cp.ihave then "437 " else "439 ") ++ text }

def sameName (name : Octets) (Name : String) : Bool :=
  let lower (c : UInt8) : UInt8 := if 65 ≤ c && c ≤ 90 then c + 32 else c
  name.map lower = (octets Name).map lower

def systemHeader (name : Octets) : Option Nat :=
  ARTheaders.findIdx? fun hp => sameName (name.takeWhile (· ≠ 0)) hp.Name

def headerValue (xrefslave : Bool) (i colon : Nat) (header : Octets) : Nat × Nat :=
  if i = HDR_MESSAGE_ID ∨ i = HDR_SUPERSEDES ∨ (xrefslave ∧ i = HDR_XREF) then
    let rest := ((header.take (header.length - 2)).drop (colon + 1)).dropWhile ISWHITE
    (header.length - 2 - rest.length, (rest.reverse.dropWhile ISWHITE).length)
  else (colon + 2, header.length - (colon + 2) - 2)

def noteBytes (i : Nat) (cp : Channel) : Channel :=
  if i = HDR_BYTES then { cp with BytesHeader := some cp.CurHeader } else cp

def recordHeader (xrefslave : Bool) (cp : Channel) (i colon : Nat) (header : Octets) : Channel :=
  if (cp.HdrContent i).Length ≠ 0 then
    if ARTheaders[i]?.any fun hp => hp.type = .HTreq then
      cp.setHeader i { cp.HdrContent i with Length := -1 }
    else cp
  else
    let (value, length) := headerValue xrefslave i colon header
    cp.setHeader i { Value := some (cp.CurHeader + value), Length := length }

def ARTcheckheader (xrefslave : Bool) (cp : Channel) (header : Octets) : Channel :=
  match header.findIdx? (· = 58) with
  | none => ARTerror cp
      (octets "No colon-space in \"" ++ MaxLength (header.takeWhile (· ≠ CR)) ++ octets "\" header")
  | some colon =>
    if (header[colon + 1]?.any ISWHITE) = false then ARTerror cp
      (octets "No colon-space in \"" ++ MaxLength (header.takeWhile (· ≠ CR)) ++ octets "\" header")
    else
      match systemHeader (header.take colon) with
      | none =>
        -- The last blank before the colon, except in the first column.
        match (header.take colon).tail.reverse.findIdx? ISWHITE with
        | none => cp
        | some back => ARTerror cp (octets "Space before colon in \"" ++
            MaxLength (header.take (colon - 1 - back)) ++ octets "\" header")
      | some i => recordHeader xrefslave (noteBytes i cp) i colon header

def terminator : Octets := [CR, LF, 46, CR, LF]

def dotLine : Octets := [46, CR, LF]

def slice (data : Octets) (position n : Nat) : Octets := (data.drop position).take n

def noteOctet (place : String) (c : UInt8) (cp : Channel) : Channel :=
  let cp := if c = 0 then ARTerror cp (octets "Nul character in " ++ octets place) else cp
  if c = LF then { cp with LFwithoutCR := cp.LFwithoutCR + 1 } else cp

def endHeader (xrefslave : Bool) (data : Octets) (cp : Channel) (i : Nat) : Channel :=
  { (ARTcheckheader xrefslave cp (slice data cp.CurHeader (i - cp.CurHeader))) with CurHeader := i }

def headerLine (xrefslave : Bool) (data : Octets) (cp : Channel) : Channel :=
  -- The article has no headers if it starts here.
  let (cp, i) : Channel × Nat :=
    if cp.Next = cp.Start then (ARTerror cp (octets "No headers"), cp.Next)
    else
      let cp := { cp with HeaderLines := cp.HeaderLines + 1 }
      (if data[cp.Next + 2]?.any ISWHITE then cp else endHeader xrefslave data cp (cp.Next + 2),
        cp.Next + 2)
  if slice data i 2 = [CR, LF] then { cp with Next := i + 2, Body := i + 2, State := .CSgetbody }
  else cp.advance .CSgetheader (i + 1)

def headerTurn (xrefslave : Bool) (data : Octets) (cp : Channel) : Option Channel :=
  if cp.State ≠ .CSgetheader then none
  else
    match data[cp.Next]? with
    | none => none
    | some c =>
      if c ≠ CR then some ((noteOctet "header" c cp).advance .CSgetheader (cp.Next + 1))
      else if cp.Next = cp.Start + 1 ∧ data.length - cp.Next > 1 ∧
          slice data (cp.Next - 1) 3 = dotLine then
        some ((ARTerror cp (octets "Empty article")).advance .CSnoarticle (cp.Next + 2))
      else if data.length - cp.Next < 5 then none
      else if slice data cp.Next 5 = terminator then
        if cp.Next = cp.Start then
          some ((ARTerror cp (octets "Empty headers and body")).advance .CSnoarticle (cp.Next + 5))
        else some ((ARTerror cp (octets "No body")).advance .CSgotarticle (cp.Next + 5))
      else if data[cp.Next + 1]? = some LF then some (headerLine xrefslave data cp)
      else some { cp with CRwithoutLF := cp.CRwithoutLF + 1, Next := cp.Next + 1 }

def bodyTurn (data : Octets) (cp : Channel) : Option Channel :=
  if cp.State ≠ .CSgetbody ∧ cp.State ≠ .CSeatarticle then none
  else
    let got : ChannelState := if cp.State = .CSeatarticle then .CSgotlargearticle else .CSgotarticle
    match data[cp.Next]? with
    | none => none
    | some c =>
      if c ≠ CR then some ((noteOctet "body" c cp).advance cp.State (cp.Next + 1))
      else if cp.Next = cp.Body + 1 ∧ data.length - cp.Next > 1 ∧
          slice data (cp.Next - 1) 3 = dotLine then
        some (cp.advance got (cp.Next + 2))
      else if data.length - cp.Next < 5 then none
      else if slice data cp.Next 5 = terminator then
        some { cp with State := got, Next := cp.Next + 5, Lines := cp.Lines + 1 }
      else if data[cp.Next + 1]? = some LF then
        let stuffed := if data[cp.Next + 2]? = some 46 then 1 else 0
        some { cp with
          Lines := cp.Lines + 1
          DotStuffedLines := cp.DotStuffedLines + stuffed
          Next := cp.Next + 2 }
      else some { cp with CRwithoutLF := cp.CRwithoutLF + 1, Next := cp.Next + 1 }

def ARTparsebody (data : Octets) (cp : Channel) : Channel :=
  drive (bodyTurn data) (data.length - cp.Next) cp

def ARTparseheader (xrefslave : Bool) (data : Octets) (cp : Channel) : Channel :=
  let cp := drive (headerTurn xrefslave data) (data.length - cp.Next) cp
  if cp.State = .CSgetbody then ARTparsebody data cp else cp

def ARTparse (xrefslave : Bool) (data : Octets) (cp : Channel) : Channel :=
  match cp.State with
  | .CSgetheader => ARTparseheader xrefslave data cp
  | .CSgetbody | .CSeatarticle => ARTparsebody data cp
  | _ => cp

end Inn.Innd
