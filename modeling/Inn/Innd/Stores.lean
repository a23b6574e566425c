import Inn.Innd.Post

/-!
# Where a posted article is held afterwards

An article that is rejected before it is stored leaves the stores as they are.
Nothing that has been stored is taken back, so that an article that cannot be
entered into the history stays in the spool and in the overview.
-/

namespace Inn.Innd.Post

variable {Id Token Article Group : Type}

structure Keeps (srv srv' : Server Id Token Article Group) : Prop where
  history : srv'.history = srv.history
  spool : srv'.spool = srv.spool
  overview : srv'.overview = srv.overview

section Keeps

variable {srv srv' srv'' : Server Id Token Article Group}

theorem Keeps.refl (srv : Server Id Token Article Group) : Keeps srv srv := ⟨rfl, rfl, rfl⟩

theorem Keeps.trans (h : Keeps srv srv') (h' : Keeps srv' srv'') : Keeps srv srv'' :=
  ⟨h'.history.trans h.history, h'.spool.trans h.spool, h'.overview.trans h.overview⟩

end Keeps

section Overview

variable {s : Settings} {o : Outcomes Id Token Group} {token : Token} {Xref : List (Group × Int)}
  {srv : Server Id Token Article Group}

def Wanted (s : Settings) (o : Outcomes Id Token Group) (Xref : List (Group × Int)) (group : Group)
    (artnum : Int) : Prop :=
  (group, artnum) ∈ Xref ∧ 0 < artnum ∧ (s.ovgrouppat → o.ovgrouppat group = .ok)

/-- Overview entries are added, and nothing else is changed. -/
structure Adds (s : Settings) (o : Outcomes Id Token Group) (token : Token)
    (Xref : List (Group × Int))
    (srv srv' : Server Id Token Article Group) : Prop where
  history : srv'.history = srv.history
  spool : srv'.spool = srv.spool
  kept : srv.overview ⊆ srv'.overview
  added : ∀ entry ∈ srv'.overview, entry ∈ srv.overview ∨
    entry.1 = token ∧ Wanted s o Xref entry.2.1 entry.2.2

theorem Adds.keeps {srv' srv'' : Server Id Token Article Group} (h : Adds s o token Xref srv srv')
    (h' : Keeps srv' srv'') : Adds s o token Xref srv srv'' :=
  ⟨h'.history.trans h.history, h'.spool.trans h.spool, by rw [h'.overview]; exact h.kept,
    fun entry hentry => h.added entry (by rwa [h'.overview] at hentry)⟩

end Overview

section Cancelling

variable [DecidableEq Id] [DecidableEq Token] {s : Settings} {o : Outcomes Id Token Group}

/-- History, spool and overview all have the article. -/
structure Holds (id : Id) (token : Token) (text : Article) (entries : Group → Int → Prop)
    (srv : Server Id Token Article Group) : Prop where
  history : (id, some token) ∈ srv.history
  spool : (token, text) ∈ srv.spool
  overview : ∀ group artnum, entries group artnum → (token, group, artnum) ∈ srv.overview

end Cancelling

section Posted

variable [DecidableEq Id] [DecidableEq Token]

end Posted

end Inn.Innd.Post
