import Inn.Tradindexed.Data

/-!
# Expiring a group

The articles of a group that are not expired are copied to new files, which take
the place of the old ones. The group index has an entry for the group.
-/

namespace Inn.Tradindexed

open Foundation.Files
open History (TOKEN time_t)

def tdxDataOpen (files : Files) (entry : GroupEntry) (writable mmap : Bool) :
    Option (Files × GroupData) :=
  match (GroupData.new writable mmap).openFiles files with
  | none => none
  | some (files, data) =>
    if entry.indexinode ≠ data.indexinode then
      match data.openFiles files with
      | none => none
      | some (files, data) => some (files, { data with high := entry.high, base := entry.base })
    else some (files, { data with high := entry.high, base := entry.base })

def tdxDataRebuildStart (files : Files) (mmap : Bool) : Option (Files × GroupData) :=
  let files := (files.unlink .IDX_NEW).unlink .DAT_NEW
  match (GroupData.new true mmap).fileOpenIndex files .IDX_NEW with
  | none => none
  | some (files, data) => data.fileOpenData files .DAT_NEW

def tdxDataRebuildFinish (files : Files) : Files :=
  (((files.rename .IDX .IDX_BAK).rename .IDX_NEW .IDX).rename .DAT_NEW .DAT).unlink .IDX_BAK

structure Rebuild where
  files : Files
  newData : GroupData
  index : GroupEntry

def Rebuild.expire (keep : Article → Bool) (rebuild : Rebuild) (found : Found) : Option Rebuild :=
  let article := found.artdata
  if !keep article then some rebuild
  else if !found.readable then none
  else
    match tdxDataStore rebuild.files rebuild.newData article with
    | (false, _) => none
    | (true, files, newData) =>
      let index := rebuild.index
      let index :=
        if index.base = 0 then { index with base := newData.base, low := article.number } else index
      let index :=
        if article.number > index.high then { index with high := article.number } else index
      some ⟨files, newData, { index with count := index.count + 1 }⟩

def tdxDataExpireStart (files : Files) (memory : Memory) (keep : Article → Bool) (data : GroupData)
    (index : GroupEntry) : Option Rebuild :=
  match tdxDataRebuildStart files data.mmap with
  | none => none
  | some (files, newData) =>
    let index := { index with indexinode := newData.indexinode }
    let high := if index.high > 0 then index.high else data.base
    let newData := { newData with high := high }
    match tdxSearchOpen files data data.base high high with
    | (none, _) => none
    | (some search, data) =>
      (searchAll files memory (data.indexlen + 1) data search).1.foldlM (Rebuild.expire keep)
        ⟨files, newData, index⟩

def tdxExpire (files : Files) (memory : Memory) (keep : Article → Bool) (mmap : Bool)
    (entry : GroupEntry) :
    Option (Files × GroupEntry) :=
  let new_entry := { entry with low := 0, count := 0, base := 0 }
  match tdxDataOpen files entry true mmap with
  | none => none
  | some (files, data) =>
    match tdxDataExpireStart files memory keep data new_entry with
    | none => none
    | some rebuild =>
      let new_entry := rebuild.index
      some (tdxDataRebuildFinish rebuild.files,
        if new_entry.low = 0 then { new_entry with low := new_entry.high + 1 } else new_entry)

end Inn.Tradindexed
