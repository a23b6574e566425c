import Mathlib

/-!
# Texts that are put together of slices

A text is copied from one position to another, but for edits that replace what
stands at their places. Where each edit stays inside a segment of the text, the
segments can be edited one by one.
-/

namespace Inn.Foundation.Splicing

variable {α : Type*}

def between (data : List α) (start stop : Nat) : List α := (data.drop start).take (stop - start)

/-- A text to take the place of a range. -/
structure Edit (α : Type*) where
  start : Nat
  text : List α
  stop : Nat

def Edit.shift (edit : Edit α) (offset : Nat) : Edit α :=
  { edit with start := offset + edit.start, stop := offset + edit.stop }

def splice (data : List α) (stop : Nat) : Nat → List (Edit α) → List α
  | start, [] => between data start stop
  | start, edit :: rest => between data start edit.start ++ edit.text ++
      splice data stop edit.stop rest

/-- A text with at most one edit. -/
structure Segment (α : Type*) where
  text : List α
  edit : Option (Edit α)
  inside : ∀ edit' ∈ edit, edit'.start ≤ edit'.stop ∧ edit'.stop ≤ text.length

def Segment.result (segment : Segment α) : List α :=
  match segment.edit with
  | none => segment.text
  | some edit => segment.text.take edit.start ++ edit.text ++ segment.text.drop edit.stop

def edits : Nat → List (Segment α) → List (Edit α)
  | _, [] => []
  | offset, segment :: rest =>
    (segment.edit.map fun edit => edit.shift offset).toList ++
      edits (offset + segment.text.length) rest

theorem Segment.result_of_none {segment : Segment α} (hedit : segment.edit = none) :
    segment.result = segment.text := by
  rw [Segment.result, hedit]

theorem Segment.result_of_some {segment : Segment α} {edit : Edit α}
    (hedit : segment.edit = some edit) :
    segment.result = segment.text.take edit.start ++ edit.text ++ segment.text.drop edit.stop := by
  rw [Segment.result, hedit]

theorem between_append {data text after : List α} {start offset n : Nat} (hstart : start ≤ offset)
    (hdata : data.drop offset = text ++ after) (hn : n ≤ text.length) :
    between data start (offset + n) = between data start offset ++ text.take n := by
  rw [between, between,
    show offset + n - start = (offset - start) + n by omega, List.take_add, List.drop_drop,
    show start + (offset - start) = offset by omega, hdata, List.take_append_of_le_length hn]

theorem between_inside {data text after : List α} {offset n : Nat}
    (hdata : data.drop offset = text ++ after)
    (hn : n ≤ text.length) : between data (offset + n) (offset + text.length) = text.drop n := by
  rw [between, ← List.drop_drop, hdata, List.drop_append_of_le_length hn,
    List.take_append_of_le_length (by rw [List.length_drop]; omega), List.take_of_length_le]
  rw [List.length_drop]
  omega

theorem splice_edits {data after : List α} {start offset : Nat} (segments : List (Segment α))
    (hstart : start ≤ offset)
    (hdata : data.drop offset = (segments.map Segment.text).flatten ++ after) :
    splice data (offset + (segments.map Segment.text).flatten.length) start
      (edits offset segments) =
      between data start offset ++ (segments.map Segment.result).flatten := by
  induction segments generalizing start offset with
  | nil => simp [splice, edits]
  | cons segment rest ih =>
    rw [List.map_cons, List.flatten_cons, List.append_assoc] at hdata
    have hrest :
        data.drop (offset + segment.text.length) = (rest.map Segment.text).flatten ++ after := by
      rw [← List.drop_drop, hdata, List.drop_left]
    have hstop : offset + ((segment :: rest).map Segment.text).flatten.length =
        offset + segment.text.length + (rest.map Segment.text).flatten.length := by
      rw [List.map_cons, List.flatten_cons, List.length_append, Nat.add_assoc]
    rw [hstop, edits, List.map_cons, List.flatten_cons, Segment.result]
    cases hedit : segment.edit with
    | none =>
      rw [Option.map_none, Option.toList_none, List.nil_append, ih (by omega) hrest,
        between_append hstart hdata (Nat.le_refl _), List.take_length, List.append_assoc]
    | some edit =>
      obtain ⟨hle, hinside⟩ := segment.inside edit hedit
      rw [Option.map_some, Option.toList_some, List.singleton_append, splice, Edit.shift]
      dsimp only
      rw [ih (by omega) hrest, between_append hstart hdata (by omega), between_inside hdata hinside]
      simp only [List.append_assoc]

theorem edits_append (offset : Nat) (front back : List (Segment α)) :
    edits offset (front ++ back) =
      edits offset front ++ edits (offset + (front.map Segment.text).flatten.length) back := by
  induction front generalizing offset with
  | nil => rfl
  | cons segment rest ih =>
    rw [List.cons_append, edits, edits, ih, List.map_cons, List.flatten_cons, List.length_append,
      Nat.add_assoc,
      List.append_assoc]

theorem between_self (data : List α) (position : Nat) : between data position position = [] := by
  rw [between, Nat.sub_self, List.take_zero]

end Inn.Foundation.Splicing
