import Inn.Tradindexed.Expire

/-!
# Adding to a group

A process has a group open, and with it its entry in the group index. An article
whose number is below the base makes it rewrite the index file first.
-/

namespace Inn.Tradindexed

/-- A group with its files, its entry and the handle on them. -/
structure OpenGroup where
  /-- `index->writable` -/
  writable : Bool
  files : Files
  entry : GroupEntry
  data : GroupData

def tdxDataPackStart (files : Files) (data : GroupData) (artnum : Nat) : Bool × Files × GroupData :=
  if !data.writable then (false, files, data)
  else if data.base ≤ artnum then (false, files, data)
  else
    let base := indexBase artnum
    let delta := data.base - base
    match files.fileOpen .IDX_NEW true with
    | (none, files) => (false, files, data)
    | (some fd, files) =>
      let (r, data) := data.unmapIndex.mapIndex files
      if !r then (false, files.unlink .IDX_NEW, data)
      else (true, files.xpwrite fd delta (data.entries files),
        { data with base := base, indexinode := fd })

def tdxDataPackFinish (files : Files) (data : GroupData) : Bool × Files × GroupData :=
  if !data.writable then (false, files, data)
  else if (files.names .IDX_NEW).isNone then (false, files, data)
  else
    let files := files.rename .IDX_NEW .IDX
    match data.fileOpenIndex files .IDX with
    | none => (false, files, data)
    | some (files, data) => (true, files, data)

def GroupEntry.note (entry : GroupEntry) (base number : Nat) : GroupEntry :=
  let entry := if entry.base = 0 then { entry with base := base } else entry
  let entry := if entry.low = 0 ∨ entry.low > number then { entry with low := number } else entry
  let entry := if entry.high < number then { entry with high := number } else entry
  { entry with count := entry.count + 1 }

namespace OpenGroup

def refresh (g : OpenGroup) : Bool × OpenGroup :=
  if g.entry.indexinode ≠ g.data.indexinode then
    match g.data.openFiles g.files with
    | none => (false, { g with data := g.data.unmapIndex.unmapData })
    | some (files, data) =>
        (true, { g with files := files, data := { data with base := g.entry.base } })
  else (true, g)

def repack (g : OpenGroup) (artnum : Nat) : Bool × OpenGroup :=
  if g.entry.base > artnum then
    match tdxDataPackStart g.files g.data artnum with
    | (false, files, data) => (false, { g with files := files, data := data })
    | (true, files, data) =>
      let entry := { g.entry with indexinode := data.indexinode, base := data.base }
      match tdxDataPackFinish files data with
      | (false, files, data) => (false, { g with files := files, data := data })
      | (true, files, data) => (true, { g with files := files, entry := entry, data := data })
  else (true, g)

def store (g : OpenGroup) (article : Article) : Bool × OpenGroup :=
  match tdxDataStore g.files g.data article with
  | (false, files, data) => (false, { g with files := files, data := data })
  | (true, files, data) =>
    (true,
      { g with
        files := files
        entry := g.entry.note data.base article.number
        -- an article has been added out of order
        data := if data.high > article.number then
          { data with remapoutoforder := true } else data })

def tdxDataAdd (g : OpenGroup) (article : Article) : Bool × OpenGroup :=
  if !g.writable then (false, g)
  else
    match g.refresh with
    | (false, g) => (false, g)
    | (true, g) =>
      match g.repack article.number with
      | (false, g) => (false, g)
      | (true, g) => g.store article

def cancel (g : OpenGroup) (artnum : Nat) : Bool × OpenGroup :=
  let (r, files) := tdxDataCancel g.files g.data artnum
  (r, { g with files := files })

def deliver (g : OpenGroup) (memory : Memory) : Option Search × GroupData → List Found × OpenGroup
  | (none, data) => ([], { g with data := data })
  | (some search, data) =>
    let (found, data) := searchAll g.files memory (data.indexlen + 1) data search
    (found, { g with data := data })

def search (g : OpenGroup) (memory : Memory) (low high : Nat) : List Found × OpenGroup :=
  g.deliver memory (tdxSearchOpen g.files g.data low high g.entry.high)

def create (files : Files) (low high : Nat) (mmap : Bool) : Option OpenGroup :=
  match (GroupData.new true mmap).openFiles files with
  | none => none
  | some (files, data) =>
    let entry : GroupEntry :=
      { GroupEntry.zero with
        low := if low = 0 ∧ high ≠ 0 then high + 1 else low
        high := high
        indexinode := data.indexinode }
    match tdxDataOpen files entry true mmap with
    | none => none
    | some (files, data) => some ⟨true, files, entry, data⟩

end OpenGroup

end Inn.Tradindexed
