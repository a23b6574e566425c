import Inn.Foundation.Runs
import Inn.Nnrpd.Newnews
import Inn.Nnrpd.Post

/-!
# What a client may do

Auth groups find out who a client is, and access groups say what it may do. Both lists are gone
through from their ends. What the client may do is kept from one call to the next; scripts are left
out.
-/

namespace Inn.Nnrpd.Perm

open Foundation.Runs
open Newnews (NGgetlist PERMmatch)

section Calls

structure AUTHGROUP where
  key : Option Octets
  defaultUser : Option Octets
  defaultDomain : Option Octets
  requireSsl : Bool
  authMethods : Bool
  deriving DecidableEq

structure ACCESSGROUP where
  key : Option Octets
  users : Option Octets
  rejectwith : Option Octets
  read : Option Octets
  post : Option Octets
  virtualhost : Bool
  domain : Option Octets
  pathhost : Octets
  deriving DecidableEq

structure Config where
  authRealms : List AUTHGROUP
  accessRealms : Option (List ACCESSGROUP)
  /-- The pathhost and the domain of the server. -/
  pathhost : Octets
  domain : Option Octets

structure State where
  PERMcanread : Bool
  PERMcanpost : Bool
  PERMcanpostgreeting : Bool
  PERMcanauthenticate : Bool
  PERMneedauth : Bool
  PERMauthorized : Bool
  PERMspecified : Bool
  PERMreadlist : List Octets
  PERMpostlist : List Octets
  PERMuser : Octets
  successAuth : Option AUTHGROUP
  /-- None stands for the default access. -/
  PERMaccessconf : Option ACCESSGROUP
  VirtualPath : Octets

inductive Call
  | PERMgetaccess (initialconnection encryption_layer_on : Bool) (ResolveUser : Nat → Option Octets)
  | PERMlogin (AuthenticateUser : Nat → Option Octets)
  | PERMgetpermissions

inductive Stop
  /-- The client is told to go away. -/
  | goodbye
  /-- A list is used that is not there. -/
  | crash
  deriving DecidableEq

variable (c : Config)

def Config.start : State where
  PERMcanread := false
  PERMcanpost := false
  PERMcanpostgreeting := false
  PERMcanauthenticate := c.authRealms.any AUTHGROUP.authMethods
  PERMneedauth := false
  PERMauthorized := false
  PERMspecified := false
  PERMreadlist := []
  PERMpostlist := []
  PERMuser := []
  successAuth := none
  PERMaccessconf := none
  VirtualPath := []

def AUTHGROUP.user (auth : AUTHGROUP) (uname : Octets) : Octets :=
  let PERMuser := uname.take (SMBUF - 1)
  match auth.defaultDomain with
  | none => PERMuser
  | some defaultDomain =>
    if PERMuser.contains 64 then PERMuser else (PERMuser ++ [64] ++ defaultDomain).take (SMBUF - 1)

def Config.resolve (encryption_layer_on : Bool) (ResolveUser : Nat → Option Octets) :
    Option (AUTHGROUP × Octets × Bool) :=
  c.authRealms.zipIdx.reverse.findSome? fun (auth, i) =>
    if auth.requireSsl && !encryption_layer_on then none
    else
      match ResolveUser i with
      | some uname => some (auth, uname, true)
      | none => auth.defaultUser.map fun uname => (auth, uname, false)

def State.greet (access : List ACCESSGROUP) (s : State) : State :=
  if access = [] then { s with PERMcanread := false, PERMcanpost := false, PERMneedauth := false }
  else
    { s with
      PERMcanread := s.PERMcanread || access.any fun group => group.read.isSome
      PERMcanpost := s.PERMcanpost || access.any fun group => group.post.isSome
      PERMcanpostgreeting := s.PERMcanpostgreeting || access.any fun group => group.post.isSome }

def Config.identify (initialconnection encryption_layer_on : Bool)
    (ResolveUser : Nat → Option Octets) (s : State) :
    Except Stop State :=
  match c.resolve encryption_layer_on ResolveUser with
  | some (auth, uname, resolved) =>
    .ok { s with
      PERMauthorized := s.PERMauthorized || resolved
      PERMuser := auth.user uname
      PERMneedauth := false
      successAuth := some auth }
  | none => if initialconnection && !s.PERMcanauthenticate then .error .goodbye
      else .ok { s with PERMneedauth := true }

def Config.PERMgetaccess (initialconnection encryption_layer_on : Bool)
    (ResolveUser : Nat → Option Octets) (s : State) :
    Except Stop State :=
  match c.identify initialconnection encryption_layer_on ResolveUser s with
  | .error stop => .error stop
  | .ok s =>
    if initialconnection then
      match c.accessRealms with
      | none => .error .crash
      | some access => .ok (s.greet access)
    else .ok s

def Config.PERMlogin (AuthenticateUser : Nat → Option Octets) (s : State) : State :=
  let found := c.authRealms.zipIdx.reverse.findSome? fun (auth, i) =>
    (AuthenticateUser i).map fun runame => (auth, runame)
  match found with
  | none => { s with PERMneedauth := true }
  | some (auth, runame) =>
    { s with
      PERMuser := auth.user runame
      PERMneedauth := false
      PERMauthorized := true
      PERMcanauthenticate := false
      successAuth := some auth }

def ACCESSGROUP.serves (access : ACCESSGROUP) (auth : AUTHGROUP) (PERMuser : Octets) : Bool :=
  (match access.key, auth.key with
    | none, none => true
    | some key, some key' => key = key'
    | _, _ => false) &&
  match access.users with
  | none => true
  | some users => PERMuser ≠ [] && PERMmatch (NGgetlist users) [PERMuser]

def Config.virtualPath (access : ACCESSGROUP) : Option Octets :=
  if access.rejectwith.isSome then none
  else if access.virtualhost then
    match access.domain with
    | none => none
    | some domain =>
      if c.pathhost.map toupper = access.pathhost.map toupper then
        if c.domain.any fun own => own.map toupper = domain.map toupper then none
          else some (domain ++ [33])
      else some (access.pathhost ++ [33])
  else some []

def State.grant (s : State) (access : ACCESSGROUP) : State :=
  let s :=
    match access.read with
    | some read =>
      { s with
        PERMspecified := NGgetlist read ≠ [], PERMreadlist := NGgetlist read, PERMcanread := true }
    | none => { s with PERMcanread := false }
  match access.post with
  | some post => { s with PERMpostlist := NGgetlist post, PERMcanpost := true }
  | none => { s with PERMcanpost := false }

def Config.PERMgetpermissions (s : State) : Except Stop State :=
  match s.successAuth with
  | none => .ok { s with PERMaccessconf := none }
  | some auth =>
    match c.accessRealms with
    | none => .error .crash
    | some access =>
      match access.reverse.find? fun group => group.serves auth s.PERMuser with
      | none => .ok { s with PERMaccessconf := none }
      | some group =>
        match c.virtualPath group with
        | none => .error .goodbye
        | some VirtualPath =>
          .ok { s.grant group with PERMaccessconf := some group, VirtualPath := VirtualPath }

def Config.step (s : State) : Call → Except Stop State
  | .PERMgetaccess initialconnection encryption_layer_on ResolveUser =>
    c.PERMgetaccess initialconnection encryption_layer_on ResolveUser s
  | .PERMlogin AuthenticateUser => .ok (c.PERMlogin AuthenticateUser s)
  | .PERMgetpermissions => c.PERMgetpermissions s

end Calls

section Granting

variable (c : Config)

def Applies (auth : AUTHGROUP) (PERMuser : Octets) (access : ACCESSGROUP) : Prop :=
  access.key = auth.key ∧ ∀ users ∈ access.users, PERMuser ≠ [] ∧
    PERMmatch (NGgetlist users) [PERMuser] = true

/-- The last access group that applies to the user. -/
def Config.Current (s : State) (group : ACCESSGROUP) : Prop :=
  ∃ auth before after, s.successAuth = some auth ∧
    c.accessRealms = some (before ++ group :: after) ∧
    Applies auth s.PERMuser group ∧ ∀ other ∈ after, ¬Applies auth s.PERMuser other

/-- The state has the permissions of the group. -/
structure Has (group : ACCESSGROUP) (s : State) : Prop where
  canread : s.PERMcanread = group.read.isSome
  canpost : s.PERMcanpost = group.post.isSome
  readlist : s.PERMreadlist = (group.read.map NGgetlist).getD []
  postlist : s.PERMpostlist = (group.post.map NGgetlist).getD []
  specified : s.PERMspecified = decide ((group.read.map NGgetlist).getD [] ≠ [])

/-- Access is what the current group says, or there is none. -/
structure Config.Granted (s : State) : Prop where
  group : ∀ group, c.Current s group → Has group s
  none : (¬∃ group, c.Current s group) → s.PERMneedauth = false →
    s.PERMcanread = false ∧ s.PERMcanpost = false

structure Config.Fresh (s : State) : Prop where
  list : s.successAuth ≠ none → c.accessRealms ≠ none
  group : ∀ group, c.Current s group → c.virtualPath group ≠ none →
    (group.read = none → s.PERMreadlist = [] ∧ s.PERMspecified = false) ∧
      (group.post = none → s.PERMpostlist = [])
  none : (¬∃ group, c.Current s group) → s.PERMneedauth = false →
    s.PERMcanread = false ∧ s.PERMcanpost = false

theorem serves_iff {auth : AUTHGROUP} {PERMuser : Octets} {access : ACCESSGROUP} :
    access.serves auth PERMuser = true ↔ Applies auth PERMuser access := by
  rw [ACCESSGROUP.serves, Applies, Bool.and_eq_true]
  refine and_congr ?_ ?_
  · cases access.key <;> cases auth.key <;> simp
  · cases access.users <;> simp

variable {c}

theorem current_iff {s : State} {group : ACCESSGROUP} :
    c.Current s group ↔ ∃ auth access, s.successAuth = some auth ∧ c.accessRealms = some access ∧
      access.reverse.find? (fun group => group.serves auth s.PERMuser) = some group := by
  constructor
  · rintro ⟨auth, before, after, hauth, haccess, happlies, hlast⟩
    refine ⟨auth, _, hauth, haccess,
      List.find?_eq_some_iff_append.mpr ⟨serves_iff.mpr happlies, after.reverse,
      before.reverse, by simp, fun other hother => ?_⟩⟩
    rw [Bool.not_eq_true', ← Bool.not_eq_true, serves_iff]
    exact hlast other (List.mem_reverse.mp hother)
  · rintro ⟨auth, access, hauth, haccess, hfind⟩
    obtain ⟨hserves, after, before, hsplit, hlast⟩ := List.find?_eq_some_iff_append.mp hfind
    refine ⟨auth, before.reverse, after.reverse, hauth, ?_, serves_iff.mp hserves,
      fun other hother => ?_⟩
    · rw [haccess, ← List.reverse_reverse access, hsplit]
      simp
    · rw [← serves_iff, Bool.not_eq_true, ← Bool.not_eq_true']
      exact hlast other (List.mem_reverse.mp hother)

theorem current_congr {s s' : State} (hauth : s'.successAuth = s.successAuth)
    (huser : s'.PERMuser = s.PERMuser)
    (group : ACCESSGROUP) : c.Current s' group ↔ c.Current s group := by
  rw [Config.Current, Config.Current, hauth, huser]

theorem current_unique {s : State} {group group' : ACCESSGROUP} (h : c.Current s group)
    (h' : c.Current s group') :
    group = group' := by
  obtain ⟨auth, access, hauth, haccess, hfind⟩ := current_iff.mp h
  obtain ⟨auth', access', hauth', haccess', hfind'⟩ := current_iff.mp h'
  cases hauth.symm.trans hauth'
  cases haccess.symm.trans haccess'
  exact Option.some.inj (hfind.symm.trans hfind')

end Granting

section Steps

variable {c : Config} {s s' : State} {group : ACCESSGROUP}

theorem getpermissions_current (hcurrent : c.Current s group) :
    c.PERMgetpermissions s =
      match c.virtualPath group with
      | none => .error .goodbye
      | some VirtualPath => .ok { s.grant group with
        PERMaccessconf := some group, VirtualPath := VirtualPath } := by
  obtain ⟨auth, access, hauth, haccess, hfind⟩ := current_iff.mp hcurrent
  rw [Config.PERMgetpermissions, hauth, haccess]
  dsimp only
  rw [hfind]

theorem getpermissions_none (hlist : s.successAuth ≠ none → c.accessRealms ≠ none)
    (hnone : ¬∃ group, c.Current s group) :
    c.PERMgetpermissions s = .ok { s with PERMaccessconf := none } := by
  rw [Config.PERMgetpermissions]
  cases hauth : s.successAuth with
  | none => rfl
  | some auth =>
    cases haccess : c.accessRealms with
    | none => exact absurd haccess (hlist (by rw [hauth]; nofun))
    | some access =>
      dsimp only
      cases hfind : access.reverse.find? fun group => group.serves auth s.PERMuser with
      | none => rfl
      | some group => exact absurd ⟨group,
          current_iff.mpr ⟨auth, access, hauth, haccess, hfind⟩⟩ hnone

theorem getpermissions_crash (hauth : s.successAuth ≠ none) (haccess : c.accessRealms = none) :
    c.PERMgetpermissions s = .error .crash := by
  obtain ⟨auth, hauth⟩ := Option.ne_none_iff_exists'.mp hauth
  rw [Config.PERMgetpermissions, hauth, haccess]

theorem grant_identity (group : ACCESSGROUP) :
    (s.grant group).successAuth = s.successAuth ∧ (s.grant group).PERMuser = s.PERMuser := by
  rw [State.grant]
  cases group.read <;> cases group.post <;> exact ⟨rfl, rfl⟩

theorem has_grant (group : ACCESSGROUP) :
    Has group (s.grant group) ↔
      (group.read = none → s.PERMreadlist = [] ∧ s.PERMspecified = false) ∧
      (group.post = none → s.PERMpostlist = []) := by
  rw [State.grant]
  cases hread : group.read <;> cases hpost : group.post
  all_goals
    constructor
    · rintro ⟨hcanread, hcanpost, hreadlist, hpostlist, hspecified⟩
      simp_all
    · intro hleft
      constructor <;> simp_all

theorem getpermissions_identity (hstep : c.PERMgetpermissions s = .ok s') :
    s'.successAuth = s.successAuth ∧ s'.PERMuser = s.PERMuser := by
  by_cases hcurrent : ∃ group, c.Current s group
  · obtain ⟨group, hcurrent⟩ := hcurrent
    rw [getpermissions_current hcurrent] at hstep
    split at hstep
    · cases hstep
    · cases hstep
      exact grant_identity group
  · by_cases hlist : s.successAuth ≠ none → c.accessRealms ≠ none
    · cases (getpermissions_none hlist hcurrent).symm.trans hstep
      exact ⟨rfl, rfl⟩
    · rw [Classical.not_imp, not_not] at hlist
      rw [getpermissions_crash hlist.1 hlist.2] at hstep
      cases hstep

theorem getpermissions_iff :
    (c.PERMgetpermissions s ≠ .error .crash ∧ ∀ s', c.PERMgetpermissions s = .ok s' →
      c.Granted s') ↔ c.Fresh s := by
  constructor
  · rintro ⟨hcrash, hgranted⟩
    have hlist : s.successAuth ≠ none → c.accessRealms ≠ none := fun hauth haccess =>
      hcrash (getpermissions_crash hauth haccess)
    refine ⟨hlist, fun group hcurrent hpath => ?_, fun hnone hneedauth => ?_⟩
    · obtain ⟨VirtualPath, hpath⟩ := Option.ne_none_iff_exists'.mp hpath
      have hstep := getpermissions_current hcurrent
      rw [hpath] at hstep
      obtain ⟨hauth, huser⟩ := getpermissions_identity hstep
      have hhas := (hgranted _ hstep).group group ((current_congr hauth huser group).mpr hcurrent)
      exact (has_grant group).mp { hhas with }
    · have hstep := getpermissions_none hlist hnone
      exact (hgranted _ hstep).none (fun ⟨group, h⟩ =>
        hnone ⟨group, (current_congr rfl rfl group).mp h⟩) hneedauth
  · intro hfresh
    by_cases hcurrent : ∃ group, c.Current s group
    · obtain ⟨group, hcurrent⟩ := hcurrent
      have hstep := getpermissions_current hcurrent
      cases hpath : c.virtualPath group with
      | none =>
        rw [hpath] at hstep
        refine ⟨fun hcrash => ?_, fun s' hok => ?_⟩
        · cases hstep.symm.trans hcrash
        · cases hstep.symm.trans hok
      | some VirtualPath =>
        rw [hpath] at hstep
        refine ⟨fun hcrash => ?_, fun s' hok => ?_⟩
        · cases hstep.symm.trans hcrash
        · obtain ⟨hauth, huser⟩ := getpermissions_identity hok
          have hhas :=
            (has_grant group).mpr (hfresh.group group hcurrent fun h => nomatch hpath.symm.trans h)
          cases hstep.symm.trans hok
          refine ⟨fun other hother => ?_, fun hnone => ?_⟩
          · obtain rfl := current_unique hcurrent ((current_congr hauth huser other).mp hother)
            exact { hhas with }
          · exact absurd ⟨group, (current_congr hauth huser group).mpr hcurrent⟩ hnone
    · have hstep := getpermissions_none hfresh.list hcurrent
      refine ⟨fun hcrash => ?_, fun s' hok => ?_⟩
      · cases hstep.symm.trans hcrash
      · obtain ⟨hauth, huser⟩ := getpermissions_identity hok
        cases hstep.symm.trans hok
        refine ⟨fun group hgroup => ?_, fun _ => hfresh.none hcurrent⟩
        exact absurd ⟨group, (current_congr hauth huser group).mp hgroup⟩ hcurrent

end Steps

section Runs

variable {c : Config} {s s' : State}

def Idle (s : State) : Prop :=
  s.successAuth = none → s.PERMneedauth = true ∨ s.PERMcanread = false ∧ s.PERMcanpost = false

theorem start_idle : Idle c.start := fun _ => .inr ⟨rfl, rfl⟩

def Config.clear (c : Config) (s : State) : Call → Prop
  | .PERMgetaccess initialconnection _ _ => initialconnection = true → c.accessRealms ≠ none
  | .PERMlogin _ => True
  | .PERMgetpermissions => s.successAuth ≠ none → c.Fresh s

theorem greet_idle {access : List ACCESSGROUP}
    (hneedauth : s.successAuth = none → s.PERMneedauth = true) :
    Idle (s.greet access) := by
  rw [State.greet]
  split
  · exact fun _ => .inr ⟨rfl, rfl⟩
  · exact fun hauth => .inl (hneedauth hauth)

theorem getaccess_idle {initialconnection encryption_layer_on : Bool}
    {ResolveUser : Nat → Option Octets}
    (hstep : c.PERMgetaccess initialconnection encryption_layer_on ResolveUser s = .ok s') :
    Idle s' := by
  have hidentify : ∀ s₁, c.identify initialconnection encryption_layer_on ResolveUser s = .ok s₁ →
      s₁.successAuth = none → s₁.PERMneedauth = true := by
    intro s₁ h hauth
    rw [Config.identify] at h
    split at h
    · obtain rfl := Except.ok.inj h
      cases hauth
    · split at h
      · cases h
      · obtain rfl := Except.ok.inj h
        rfl
  rw [Config.PERMgetaccess] at hstep
  split at hstep
  · cases hstep
  next s₁ h =>
    split at hstep
    · split at hstep
      · cases hstep
      · obtain rfl := Except.ok.inj hstep
        exact greet_idle (hidentify s₁ h)
    · obtain rfl := Except.ok.inj hstep
      exact fun hauth => .inl (hidentify s₁ h hauth)

theorem login_idle {AuthenticateUser : Nat → Option Octets} :
    Idle (c.PERMlogin AuthenticateUser s) := by
  rw [Config.PERMlogin]
  split
  · exact fun _ => .inl rfl
  · exact nofun

theorem getpermissions_idle (hidle : Idle s)
    (hstep : c.PERMgetpermissions s = .ok s') : Idle s' := by
  intro hauth
  rw [(getpermissions_identity hstep).1] at hauth
  rw [Config.PERMgetpermissions, hauth] at hstep
  cases hstep
  exact hidle hauth

theorem step_idle (s : State) (call : Call) (s' : State) (hidle : Idle s)
    (hstep : c.step s call = .ok s') : Idle s' := by
  cases call with
  | PERMgetaccess initialconnection encryption_layer_on ResolveUser => exact getaccess_idle hstep
  | PERMlogin AuthenticateUser =>
    cases hstep
    exact login_idle
  | PERMgetpermissions => exact getpermissions_idle hidle hstep

theorem fresh_of_clear (hidle : Idle s) (hclear : c.clear s .PERMgetpermissions) : c.Fresh s := by
  by_cases hauth : s.successAuth = none
  · have hnone : ∀ group, ¬c.Current s group := by
      rintro group ⟨auth, _, _, hauth', _⟩
      exact absurd (hauth.symm.trans hauth') nofun
    refine ⟨fun h => absurd hauth h, fun group hgroup => absurd hgroup (hnone group),
      fun _ hneedauth => ?_⟩
    exact (hidle hauth).resolve_left (by rw [hneedauth]; decide)
  · exact hclear hauth

theorem step_ne_crash (s : State) (call : Call) (hidle : Idle s) (hclear : c.clear s call) :
    c.step s call ≠ .error .crash := by
  cases call with
  | PERMgetaccess initialconnection encryption_layer_on ResolveUser =>
    intro hstep
    rw [Config.step, Config.PERMgetaccess] at hstep
    split at hstep
    next stop h =>
      obtain rfl := Except.error.inj hstep
      rw [Config.identify] at h
      split at h
      · cases h
      · split at h <;> cases h
    · split at hstep
      next hinitial =>
        split at hstep
        next hnone => exact hclear hinitial hnone
        · cases hstep
      · cases hstep
  | PERMlogin AuthenticateUser => nofun
  | PERMgetpermissions => exact (getpermissions_iff.mpr (fresh_of_clear hidle hclear)).1

/-- In a run whose calls are all clear no list is used that is not there, and whenever the
permissions are looked up, the client gets those of its access group. -/
theorem permissions_proper (c : Config) (calls : List Call)
    (hmeets : Meets c.step c.clear calls c.start) :
    run c.step calls c.start ≠ .error .crash ∧
      ∀ before after s, calls = before ++ .PERMgetpermissions :: after →
        run c.step (before ++ [.PERMgetpermissions]) c.start = .ok s → c.Granted s := by
  refine ⟨run_ne_error step_ne_crash step_idle calls start_idle hmeets, ?_⟩
  rintro before after s rfl hrun
  obtain ⟨s₁, hfront, hback⟩ := of_run_append hrun
  have hidle : Idle s₁ := of_run step_idle start_idle hfront
  have hclear := (hmeets.back hfront).1
  rw [run] at hback
  split at hback
  · cases hback
  next s₂ hstep =>
    obtain rfl := Except.ok.inj hback
    exact (getpermissions_iff.mpr (fresh_of_clear hidle hclear)).2 s₂ hstep

def everything : ACCESSGROUP :=
    ⟨none, none, none, some (octets "*"), some (octets "*"), false, none, []⟩

def members : Config where
  authRealms :=
    [⟨none, some (octets "guest"), none, false, false⟩,
      ⟨some (octets "k"), none, none, false, true⟩]
  accessRealms := some [everything]
  pathhost := []
  domain := none

def nobody : Nat → Option Octets := fun _ => none

theorem members_greeted_proper :
    run members.step [.PERMgetaccess true false nobody, .PERMgetpermissions] members.start ≠
      .error .crash ∧
      ∀ before after s, [.PERMgetaccess true false nobody, .PERMgetpermissions] =
        before ++ Call.PERMgetpermissions :: after →
        run members.step (before ++ [.PERMgetpermissions]) members.start = .ok s →
          members.Granted s := by
  refine permissions_proper members _ ⟨fun _ => nofun,
    fun s hstep => ⟨fun _ => ?_, fun _ _ => trivial⟩⟩
  have hguest :
      (members.step members.start (.PERMgetaccess true false nobody)).map State.successAuth =
      .ok (some ⟨none, some (octets "guest"), none, false, false⟩) := by decide
  rw [hstep] at hguest
  have hcurrent : members.Current s everything :=
    ⟨_, [], [], Except.ok.inj hguest, rfl, ⟨rfl, nofun⟩, nofun⟩
  refine ⟨fun _ => nofun, fun group hgroup _ => ?_,
    fun hnone _ => absurd ⟨everything, hcurrent⟩ hnone⟩
  obtain rfl := current_unique hcurrent hgroup
  exact ⟨nofun, nofun⟩

/-- A client that logs in keeps the permissions that it had before when its new identity has
none. -/
theorem not_permissions_proper :
    ¬∀ (c : Config) (calls : List Call), run c.step calls c.start ≠ .error .crash ∧
      ∀ before after s, calls = before ++ .PERMgetpermissions :: after →
        run c.step (before ++ [.PERMgetpermissions]) c.start = .ok s → c.Granted s := by
  intro hall
  let before : List Call :=
    [.PERMgetaccess true false nobody, .PERMgetpermissions,
      .PERMlogin fun i => if i = 1 then some (octets "m") else none]
  have hend : (run members.step (before ++ [.PERMgetpermissions]) members.start).map
      (fun s => (s.successAuth, s.PERMneedauth, s.PERMcanread)) =
      .ok (some ⟨some (octets "k"), none, none, false, true⟩, false, true) := by decide
  cases hrun : run members.step (before ++ [.PERMgetpermissions]) members.start with
  | error stop =>
    rw [hrun] at hend
    cases hend
  | ok s =>
    rw [hrun] at hend
    obtain ⟨hauth, hrest⟩ := Prod.mk.inj (Except.ok.inj hend)
    obtain ⟨hneedauth, hcanread⟩ := Prod.mk.inj hrest
    have hnone : ¬∃ group, members.Current s group := by
      rintro ⟨group, auth, front, after, hauth', haccess, ⟨hkey, -⟩, -⟩
      obtain rfl := Option.some.inj (hauth.symm.trans hauth')
      have hmem : group ∈ front ++ group :: after := List.mem_append_right _ List.mem_cons_self
      rw [← Option.some.inj haccess] at hmem
      obtain rfl := List.mem_singleton.mp hmem
      cases hkey
    have hgranted := (hall members _).2 before [] s rfl hrun
    exact absurd (hcanread.symm.trans (hgranted.none hnone hneedauth).1) (by decide)

end Runs

end Inn.Nnrpd.Perm
