import Inn.Foundation.Allocated
import Inn.History.Line

/-!
# The path of a group's data files

The first letter of each component of a group's name is a directory. The path is
measured in one pass over the name, and written in another one that treats each
period on its own.
-/

namespace Inn.Tradindexed

open Foundation.Allocated

namespace Path

structure CString where
  text : Octets
  ended : 0 ∉ text

def PERIOD : UInt8 := 46

def SLASH : UInt8 := 47

def COMMA : UInt8 := 44

def deref (gp : Octets) : UInt8 := gp.headD 0

def levels : Octets → Nat
  | [] => 0
  | c :: gp =>
    if c = PERIOD then
      if deref gp = PERIOD || c = 0 then levels gp
      else 2 + levels gp
    else levels gp

def strlcpy (path : Allocation UInt8) (src : Octets) (size : Nat) :
    Except Unit (Allocation UInt8) :=
  if size = 0 then .ok path
  else do
    let copied ← path.puts (src.take (size - 1))
    let _ ← copied.put 0
    return copied

def directories : Bool → Octets → Allocation UInt8 → Except Unit (Allocation UInt8)
  | _, [], path => .ok path
  | first, c :: gp, path =>
    if c = PERIOD && !first && (deref gp ≠ 0 && deref gp ≠ PERIOD && deref gp ≠ SLASH) then do
      let path ← path.puts [SLASH, deref gp]
      directories false gp path
    else directories false gp path

def commas (path : Allocation UInt8) (p : Nat) : Allocation UInt8 :=
  ⟨path.size, path.written.take p ++ (path.written.drop p).map fun c =>
    if c = SLASH then COMMA else c, by
    rw [List.length_append, List.length_map, ← List.length_append, List.take_append_drop]
    exact path.fits⟩

end Path

open Tradindexed.Path

def groupPath (pathoverview group : CString) : Except Unit (Allocation UInt8) := do
  let length := pathoverview.text.length + levels group.text + (1 + 2 + group.text.length + 1)
  let path ← strlcpy (alloc length) pathoverview.text length
  let path ← if deref group.text ≠ PERIOD ∧ deref group.text ≠ 0 then path.puts [SLASH,
    deref group.text] else .ok path
  let path ← directories true group.text path
  let path ← path.put SLASH
  let p := path.written.length
  let path ← strlcpy path group.text (length - p)
  return commas path p

namespace Path

def letters : Bool → Octets → Octets
  | _, [] => []
  | first, c :: gp =>
    if c = PERIOD && !first && (deref gp ≠ 0 && deref gp ≠ PERIOD && deref gp ≠ SLASH) then
      SLASH :: deref gp :: letters false gp
    else letters false gp

def initial (group : Octets) : Octets :=
    if deref group ≠ PERIOD ∧ deref group ≠ 0 then [SLASH, deref group] else []

theorem letters_length (first : Bool) (gp : Octets) : (letters first gp).length ≤ levels gp := by
  induction gp generalizing first with
  | nil => exact Nat.le_refl 0
  | cons c gp ih =>
    rw [letters, levels]
    by_cases hperiod : c = PERIOD
    · have hnul : c ≠ 0 := by
        rw [hperiod]
        decide
      have hrest := ih false
      by_cases hnext : deref gp = PERIOD
      · simpa [hperiod, hnext] using hrest
      · rw [if_pos hperiod, if_neg (c := (deref gp = PERIOD || c = 0) = true)
          (by simp [hnext, hnul])]
        split
        · rw [List.length_cons, List.length_cons]
          omega
        · exact hrest.trans (Nat.le_add_left _ 2)
    · simpa [hperiod] using ih false

theorem initial_length (group : Octets) : (initial group).length ≤ 2 := by
  rw [initial]
  split
  · exact Nat.le_refl 2
  · exact Nat.zero_le 2

theorem directories_eq (first : Bool) (gp : Octets) (path : Allocation UInt8) :
    directories first gp path = path.puts (letters first gp) := by
  induction gp generalizing first path with
  | nil => rfl
  | cons c gp ih =>
    rw [directories, letters]
    split
    · rw [show SLASH :: deref gp :: letters false gp =
        [SLASH, deref gp] ++ letters false gp from rfl, puts_append]
      exact congrArg _ (funext fun path => ih false path)
    · exact ih false path

theorem strlcpy_eq (path : Allocation UInt8) (src : Octets)
    (hroom : path.written.length + src.length < path.size) :
    strlcpy path src (path.size - path.written.length) = path.puts src := by
  have hsize : path.size - path.written.length ≠ 0 := by omega
  have htake : src.take (path.size - path.written.length - 1) = src :=
    List.take_of_length_le (by omega)
  have hnul : (path.and src hroom.le).written.length < (path.and src hroom.le).size := by
    rw [Allocation.and, List.length_append]
    exact hroom
  rw [strlcpy, if_neg hsize, htake, puts_eq, dif_pos hroom.le]
  change ((path.and src hroom.le).put 0 >>= fun _ => .ok (path.and src hroom.le)) = _
  rw [Allocation.put, dif_pos hnul]
  rfl

def flat (group : Octets) : Octets := group.map fun c => if c = SLASH then COMMA else c

def directory (pathoverview group : Octets) : Octets :=
    pathoverview ++ initial group ++ letters true group

theorem commas_written (path : Allocation UInt8) (before group : Octets)
    (hwritten : path.written = before ++ group) :
    (commas path before.length).written = before ++ flat group := by
  simp only [commas, hwritten, List.take_left, List.drop_left, flat]

theorem groupPath_eq (pathoverview group : CString) :
    ∃ path, groupPath pathoverview group = .ok path ∧
      path.written = directory pathoverview.text group.text ++ [SLASH] ++ flat group.text ∧
      path.written.length < path.size := by
  have hinitial := initial_length group.text
  have hletters := letters_length true group.text
  let length := pathoverview.text.length + levels group.text + (1 + 2 + group.text.length + 1)
  have hlength :
      length = pathoverview.text.length + levels group.text + (1 + 2 + group.text.length + 1) := rfl
  obtain ⟨base, hbase, hbasew, hbases⟩ := puts_room (alloc length) pathoverview.text (by
    change 0 + pathoverview.text.length ≤ length
    omega)
  have hfirst : strlcpy (alloc length) pathoverview.text length = .ok base := by
    refine (strlcpy_eq (alloc length) pathoverview.text ?_).trans hbase
    change 0 + pathoverview.text.length < length
    omega
  change base.written = pathoverview.text at hbasew
  change base.size = length at hbases
  obtain ⟨top, htop, htopw, htops⟩ :=
    puts_room base (initial group.text) (by rw [hbasew, hbases]; omega)
  obtain ⟨dirs, hdirs, hdirsw, hdirss⟩ := puts_room top (letters true group.text) (by
    rw [htopw, htops, hbasew, hbases, List.length_append]
    omega)
  have hdirsw : dirs.written = directory pathoverview.text group.text := by
    rw [hdirsw, htopw, hbasew, directory]
  have hdirsl : dirs.written.length ≤ pathoverview.text.length + 2 + levels group.text := by
    rw [hdirsw, directory, List.length_append, List.length_append]
    omega
  have hdirss : dirs.size = length := hdirss.trans (htops.trans hbases)
  obtain ⟨slash, hslash, hslashw, hslashs⟩ := puts_room dirs [SLASH] (by
    rw [hdirss, List.length_singleton]
    omega)
  have hslashl : slash.written.length = dirs.written.length + 1 := by
    rw [hslashw, List.length_append, List.length_singleton]
  have hroom : slash.written.length + group.text.length < slash.size := by
    rw [hslashl, hslashs, hdirss]
    omega
  obtain ⟨path, hpath, hpathw, hpaths⟩ := puts_room slash group.text hroom.le
  refine ⟨commas path slash.written.length, ?_, ?_, ?_⟩
  · have hlast : strlcpy slash group.text (length - slash.written.length) = .ok path := by
      rw [← hdirss, ← hslashs]
      exact (strlcpy_eq slash group.text hroom).trans hpath
    rw [puts_singleton] at hslash
    rw [groupPath]
    by_cases hletter : deref group.text ≠ PERIOD ∧ deref group.text ≠ 0
    · rw [initial, if_pos hletter] at htop
      simp only [← hlength, hfirst, bind, Except.bind, if_pos hletter, htop, directories_eq, hdirs,
        hslash, hlast, pure,
        Except.pure]
    · rw [initial, if_neg hletter, puts_nil] at htop
      cases htop
      simp only [← hlength, hfirst, bind, Except.bind, if_neg hletter, directories_eq, hdirs,
        hslash, hlast, pure,
        Except.pure]
  · rw [commas_written path slash.written group.text hpathw, hslashw, hdirsw]
  · rw [commas_written path slash.written group.text hpathw, List.length_append, flat,
      List.length_map, commas, hpaths]
    exact hroom

theorem eq_of_append_slash {before before' a b : Octets} (ha : SLASH ∉ a) (hb : SLASH ∉ b)
    (heq : before ++ [SLASH] ++ a = before' ++ [SLASH] ++ b) : a = b := by
  have hrev : a.reverse ++ SLASH :: before.reverse = b.reverse ++ SLASH :: before'.reverse := by
    simpa using congrArg List.reverse heq
  have htake := congrArg (List.takeWhile fun c => c ≠ SLASH) hrev
  have hplain : ∀ text : Octets, SLASH ∉ text → ∀ c ∈ text.reverse, decide (c ≠ SLASH) = true := by
    intro text hslash c hc
    exact decide_eq_true fun hc' => hslash (hc' ▸ List.mem_reverse.mp hc)
  rw [List.takeWhile_append_of_pos (hplain a ha),
    List.takeWhile_append_of_pos (hplain b hb)] at htake
  simpa using htake

theorem flat_eq {group : Octets} (hslash : SLASH ∉ group) : flat group = group :=
  (List.map_congr_left fun _ hc => if_neg (ne_of_mem_of_not_mem hc hslash)).trans
    (List.map_id group)

end Path

/-- Every name's path is written within what was allocated for it, and names
without slashes and commas have paths of their own. -/
theorem group_path_fits_and_distinguishes :
    (∀ pathoverview group, ∃ path, groupPath pathoverview group = .ok path ∧
      path.written.length < path.size) ∧
      ∀ pathoverview group other : CString,
        (SLASH ∉ group.text ∧ COMMA ∉ group.text) → (SLASH ∉ other.text ∧ COMMA ∉ other.text) →
          group ≠ other →
          (groupPath pathoverview group).map Allocation.written ≠
            (groupPath pathoverview other).map Allocation.written := by
  refine ⟨?_, ?_⟩
  · intro pathoverview group
    obtain ⟨path, hpath, _, hfits⟩ := groupPath_eq pathoverview group
    exact ⟨path, hpath, hfits⟩
  · intro pathoverview group other hgroup hother hne heq
    obtain ⟨path, hpath, hwritten, _⟩ := groupPath_eq pathoverview group
    obtain ⟨path', hpath', hwritten', _⟩ := groupPath_eq pathoverview other
    rw [hpath, hpath'] at heq
    have heq : path.written = path'.written := Except.ok.inj heq
    rw [hwritten, hwritten', flat_eq hgroup.1, flat_eq hother.1] at heq
    have htext := eq_of_append_slash hgroup.1 hother.1 heq
    cases group
    cases other
    exact hne (by simpa using htext)

/-- Two groups whose directories are the same. -/
theorem group_path_fits_and_distinguishes_two :
    (groupPath ⟨octets "/ov", by decide⟩ ⟨octets "a.b", by decide⟩).map Allocation.written ≠
      (groupPath ⟨octets "/ov", by decide⟩ ⟨octets "a.bc", by decide⟩).map Allocation.written :=
  group_path_fits_and_distinguishes.2 ⟨octets "/ov", by decide⟩ ⟨octets "a.b",
    by decide⟩ ⟨octets "a.bc", by decide⟩
    (by decide) (by decide) (by simp [octets])

end Inn.Tradindexed
