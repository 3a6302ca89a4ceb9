import CoralNPU.Lib.Assoc
import CoralNPU.Lib.RefCount

namespace CoralNPU.Driver

open Lib

/-!
# The lifetimes of drivers, devices and executable caches

Drivers, devices and executable caches share the loaders, and a device can be given another allocator
and channel provider.  Every one of them retains what it uses and releases it when it is destroyed.

* `Resource`, `Objects` — what a driver, a device or a cache owns, the counts of what it refers to, and
  the references of the application.
* `tryCreate`, `driverCreate`, `deviceCreate`, `executableCacheCreate` and the other functions, each on
  the path on which memory cannot be allocated too.
* `ApiCall`, `Allowed`, `callStep` — the application: it uses what exists and releases what it holds.
* `Sound`, `sound_step` — the invariant and the step lemma.
* `lifetimes` — what holds in every run.

What loaders and allocators retain themselves is not modelled, and neither are semaphores and command
buffers, which point to their device without a reference.
-/

variable {κ ι : Type}

/-! ### Resources -/

/-- `iree_hal_coralnpu_driver_t`, `iree_hal_coralnpu_device_t` and
    `iree_hal_coralnpu_executable_cache_t`, by the references that they own. -/
inductive Resource (ι : Type)
  | driver (arenaBlockSize : Nat) (deviceAllocator : ι) (loaders : List ι)
  | device (loaders : List ι) (deviceAllocator : ι) (channelProvider : Option ι)
  | executableCache (loaders : List ι)

/-- What its `destroy` releases, in order. -/
def Resource.refs : Resource ι → List ι
  | driver _ deviceAllocator loaders => deviceAllocator :: loaders
  | device loaders deviceAllocator channelProvider =>
    loaders ++ (deviceAllocator :: channelProvider.toList)
  | executableCache loaders => loaders

/-- `iree_hal_resource_t` -/
structure Counted (ι : Type) where
  refCount : Nat
  resource : Resource ι

/-- The counts of loaders, allocators and providers, the resources that exist, and the references that
    the application holds. -/
structure Objects (κ ι : Type) where
  counts : ι → Nat
  live : List (κ × Counted ι)
  handles : List κ
  owned : List ι

def Objects.initial : Objects κ ι := ⟨fun _ => 0, [], [], []⟩

/-- The references of all resources. -/
def Objects.refs (s : Objects κ ι) : List ι := s.live.flatMap fun e => e.2.resource.refs

section Functions

variable [DecidableEq κ] [DecidableEq ι]

/-- The resources other than `k`. -/
def Objects.others (s : Objects κ ι) (k : κ) : List (κ × Counted ι) := s.live.filter (·.1 ≠ k)

/-- A new resource that holds what it retains, with a handle for the application; the allocator is
    retained before the loaders. -/
def Objects.add (s : Objects κ ι) (id : κ) (retained : List ι) (resource : Resource ι) :
    Option (Objects κ ι) := do
  let counts ← retainAll s.counts retained
  some ⟨counts, (id, ⟨1, resource⟩) :: s.live, id :: s.handles, s.owned⟩

/-- `iree_hal_coralnpu_driver_create`; without memory there is nothing to release. -/
def driverCreate (s : Objects κ ι) (id : κ) (mallocOk : Bool) (arenaBlockSize : Nat) (loaders : List ι)
    (deviceAllocator : ι) : Option (Objects κ ι) :=
  if mallocOk then
    s.add id (deviceAllocator :: loaders) (.driver arenaBlockSize deviceAllocator loaders)
  else some s

/-- `iree_hal_coralnpu_device_create` -/
def deviceCreate (s : Objects κ ι) (id : κ) (mallocOk : Bool) (arenaBlockSize : Nat) (loaders : List ι)
    (deviceAllocator : ι) : Option (Objects κ ι) :=
  -- `iree_hal_coralnpu_device_check_params`
  if arenaBlockSize < 4096 then some s
  else if mallocOk then
    s.add id (deviceAllocator :: loaders) (.device loaders deviceAllocator none)
  else some s

/-- `iree_hal_coralnpu_executable_cache_create` -/
def executableCacheCreate (s : Objects κ ι) (id : κ) (mallocOk : Bool) (loaders : List ι) :
    Option (Objects κ ι) :=
  if mallocOk then s.add id loaders (.executableCache loaders) else some s

/-- What happens in a call of `iree_hal_coralnpu_driver_factory_try_create`: `none` is an object that
    cannot be created, and `loadersOk` is false if creating the loaders ends with an error. -/
structure DriverRequest (κ ι : Type) where
  driverName : String
  pluginManager : Option ι
  loaders : List ι
  loadersOk : Bool
  deviceAllocator : Option ι
  mallocOk : Bool
  id : κ

/-- The objects that a call creates: the first error keeps the later ones from being created. -/
def DriverRequest.made (r : DriverRequest κ ι) : Option ι × List ι × Option ι :=
  match r.pluginManager with
  | none => (none, [], none)
  | some pluginManager =>
    (some pluginManager, r.loaders, if r.loadersOk then r.deviceAllocator else none)

/-- `iree_hal_coralnpu_driver_factory_try_create` -/
def tryCreate (s : Objects κ ι) (r : DriverRequest κ ι) : Option (Objects κ ι) :=
  if r.driverName ≠ "coralnpu" then some s
  else do
    let (pluginManager, loaders, deviceAllocator) := r.made
    let s := { s with
      counts := createAll s.counts (deviceAllocator.toList ++ loaders ++ pluginManager.toList) }
    let s ← deviceAllocator.elim (some s) (driverCreate s r.id r.mallocOk (32 * 1024) loaders)
    -- the driver holds its own references
    let counts ← releaseAll s.counts (deviceAllocator.toList ++ loaders ++ pluginManager.toList)
    some { s with counts }

/-- `iree_hal_coralnpu_replace_device_allocator` and `iree_hal_coralnpu_replace_channel_provider`: the
    new objects are retained before the old ones are released. -/
def replace (s : Objects κ ι) (k : κ) (c : Counted ι) (new old : List ι) (resource : Resource ι) :
    Option (Objects κ ι) := do
  let counts ← retainAll s.counts new
  let counts ← releaseAll counts old
  some { s with counts, live := (k, { c with resource }) :: s.others k }

/-- `iree_hal_resource_release`; the last release calls `destroy`. -/
def releaseResource (s : Objects κ ι) (k : κ) (c : Counted ι) : Option (Objects κ ι) :=
  if c.refCount = 1 then do
    let counts ← releaseAll s.counts c.resource.refs
    some ⟨counts, s.others k, s.handles.erase k, s.owned⟩
  else
    some { s with
      live := (k, { c with refCount := c.refCount - 1 }) :: s.others k
      handles := s.handles.erase k }

/-! ### The application -/

/-- What the application does.  `create` makes an allocator or a provider of its own; `retainOwned` keeps
    one that it got from a device. -/
inductive ApiCall (κ ι : Type)
  | tryCreate (request : DriverRequest κ ι)
  | createDevice (driver id : κ) (mallocOk : Bool)
  | createExecutableCache (device id : κ) (mallocOk : Bool)
  | replaceDeviceAllocator (device : κ) (newAllocator : ι)
  | replaceChannelProvider (device : κ) (newProvider : Option ι)
  | retain (k : κ)
  | release (k : κ)
  | create (i : ι)
  | retainOwned (i : ι)
  | releaseOwned (i : ι)

/-- One step; `none` where the code touches an object that does not exist. -/
def callStep (s : Objects κ ι) : ApiCall κ ι → Option (Objects κ ι)
  | .tryCreate request => tryCreate s request
  | .createDevice driver id mallocOk =>
    match s.live.lookup driver with
    | some ⟨_, .driver arenaBlockSize deviceAllocator loaders⟩ =>
      deviceCreate s id mallocOk arenaBlockSize loaders deviceAllocator
    | _ => none
  | .createExecutableCache device id mallocOk =>
    match s.live.lookup device with
    | some ⟨_, .device loaders _ _⟩ => executableCacheCreate s id mallocOk loaders
    | _ => none
  | .replaceDeviceAllocator device newAllocator =>
    match s.live.lookup device with
    | some ⟨n, .device loaders deviceAllocator channelProvider⟩ =>
      replace s device ⟨n, .device loaders deviceAllocator channelProvider⟩ [newAllocator]
        [deviceAllocator] (.device loaders newAllocator channelProvider)
    | _ => none
  | .replaceChannelProvider device newProvider =>
    match s.live.lookup device with
    | some ⟨n, .device loaders deviceAllocator channelProvider⟩ =>
      replace s device ⟨n, .device loaders deviceAllocator channelProvider⟩ newProvider.toList
        channelProvider.toList (.device loaders deviceAllocator newProvider)
    | _ => none
  | .retain k =>
    match s.live.lookup k with
    | some c => some { s with
        live := (k, { c with refCount := c.refCount + 1 }) :: s.others k
        handles := k :: s.handles }
    | none => none
  | .release k =>
    match s.live.lookup k with
    | some c => releaseResource s k c
    | none => none
  | .create i => some { s with counts := create s.counts i, owned := i :: s.owned }
  | .retainOwned i => do
    let counts ← Lib.retain s.counts i
    some { s with counts, owned := i :: s.owned }
  | .releaseOwned i => do
    let counts ← Lib.release s.counts i
    some { s with counts, owned := s.owned.erase i }

/-- The resource, if it exists, is a driver. -/
def Objects.DriverAt (s : Objects κ ι) (k : κ) : Prop :=
  ∀ c, s.live.lookup k = some c → ∃ arenaBlockSize deviceAllocator loaders,
    c.resource = .driver arenaBlockSize deviceAllocator loaders

/-- The resource, if it exists, is a device. -/
def Objects.DeviceAt (s : Objects κ ι) (k : κ) : Prop :=
  ∀ c, s.live.lookup k = some c → ∃ loaders deviceAllocator channelProvider,
    c.resource = .device loaders deviceAllocator channelProvider

/-- **What the application may do**: use resources that it has a handle for, and release what it holds.
    What is created is new, and what is passed exists. -/
def Allowed (s : Objects κ ι) : ApiCall κ ι → Prop
  | .tryCreate r => r.id ∉ s.live.map Prod.fst ∧
      (r.deviceAllocator.toList ++ r.loaders ++ r.pluginManager.toList).Nodup ∧
      ∀ i ∈ r.deviceAllocator.toList ++ r.loaders ++ r.pluginManager.toList, s.counts i = 0
  | .createDevice driver id _ => driver ∈ s.handles ∧ s.DriverAt driver ∧ id ∉ s.live.map Prod.fst
  | .createExecutableCache device id _ =>
    device ∈ s.handles ∧ s.DeviceAt device ∧ id ∉ s.live.map Prod.fst
  | .replaceDeviceAllocator device newAllocator =>
    device ∈ s.handles ∧ s.DeviceAt device ∧ 0 < s.counts newAllocator
  | .replaceChannelProvider device newProvider =>
    device ∈ s.handles ∧ s.DeviceAt device ∧ ∀ i ∈ newProvider, 0 < s.counts i
  | .retain k => k ∈ s.handles
  | .release k => k ∈ s.handles
  | .create i => s.counts i = 0
  | .retainOwned i => 0 < s.counts i
  | .releaseOwned i => i ∈ s.owned

/-- A run of an application that does what it may. -/
inductive Reachable : Objects κ ι → Prop
  | initial : Reachable .initial
  | step {s s' : Objects κ ι} {a : ApiCall κ ι} (before : Reachable s) (allowed : Allowed s a)
      (taken : callStep s a = some s') : Reachable s'

/-! ### The invariant -/

/-- Every count is the number of references, and what the application holds exists.  A function that is
    being called holds the references `locals`. -/
structure Sound (locals : List ι) (s : Objects κ ι) : Prop where
  tally : Tally s.counts (locals ++ (s.owned ++ s.refs))
  nodup : (s.live.map Prod.fst).Nodup
  counted : ∀ e ∈ s.live, e.2.refCount = s.handles.count e.1 ∧ 0 < e.2.refCount
  held : ∀ k ∈ s.handles, k ∈ s.live.map Prod.fst

section Invariant

variable {s : Objects κ ι} {locals : List ι}

theorem sound_initial : Sound [] (Objects.initial : Objects κ ι) where
  tally _ := rfl
  nodup := List.nodup_nil
  counted _ h := by cases h
  held _ h := by cases h

/-- A resource that exists, and the others. -/
theorem Sound.perm (h : Sound locals s) {k : κ} {c : Counted ι} (hk : s.live.lookup k = some c) :
    s.live.Perm ((k, c) :: s.others k) := perm_cons_filter h.nodup (mem_of_lookup hk)

/-- Its references, and those of the others. -/
theorem Sound.refs_perm (h : Sound locals s) {k : κ} {c : Counted ι} (hk : s.live.lookup k = some c) :
    s.refs.Perm (c.resource.refs ++ (s.others k).flatMap fun e => e.2.resource.refs) :=
  (h.perm hk).flatMap_right _

/-- What the application has a handle for exists. -/
theorem Sound.exists_of_handle (h : Sound locals s) {k : κ} (hk : k ∈ s.handles) :
    ∃ c, s.live.lookup k = some c := by
  obtain ⟨e, he, rfl⟩ := List.mem_map.mp (h.held k hk)
  exact ⟨e.2, lookup_of_mem h.nodup he⟩

theorem Sound.mem_refs (h : Sound locals s) {k : κ} {c : Counted ι}
    (hk : s.live.lookup k = some c) {i : ι} (hi : i ∈ c.resource.refs) :
    i ∈ locals ++ (s.owned ++ s.refs) :=
  List.mem_append_right _ (List.mem_append_right _
    ((h.refs_perm hk).mem_iff.mpr (List.mem_append_left _ hi)))

omit [DecidableEq ι] in
theorem mem_others {k : κ} {e : κ × Counted ι} (he : e ∈ s.others k) : e ∈ s.live ∧ e.1 ≠ k := by
  obtain ⟨hmem, hne⟩ := List.mem_filter.mp he
  exact ⟨hmem, of_decide_eq_true hne⟩

theorem Sound.mem_keys_others (h : Sound locals s) {k k' : κ} (hk' : k' ∈ s.handles) (hne : k' ≠ k) :
    k' ∈ (s.others k).map Prod.fst := by
  obtain ⟨e, he, rfl⟩ := List.mem_map.mp (h.held k' hk')
  exact List.mem_map_of_mem (List.mem_filter.mpr ⟨he, decide_eq_true hne⟩)

/-- **A new resource** retains what its function or the application holds, or another resource. -/
theorem Sound.add (h : Sound locals s) {id : κ} (hid : id ∉ s.live.map Prod.fst) {retained : List ι}
    {resource : Resource ι} (hperm : retained.Perm resource.refs)
    (hretained : ∀ i ∈ retained, i ∈ locals ++ (s.owned ++ s.refs)) :
    ∃ s', s.add id retained resource = some s' ∧ Sound locals s' := by
  obtain ⟨counts, hcounts, htally⟩ := retainAll_tally h.tally hretained
  have hnone : s.handles.count id = 0 := List.count_eq_zero.mpr fun hmem => hid (h.held id hmem)
  refine ⟨⟨counts, (id, ⟨1, resource⟩) :: s.live, id :: s.handles, s.owned⟩, ?_, ?_, ?_, ?_, ?_⟩
  · rw [Objects.add, hcounts]
    rfl
  · refine htally.perm ?_
    -- the references of the new resource go to the front of those of all resources
    show (retained ++ (locals ++ (s.owned ++ s.refs))).Perm
      (locals ++ (s.owned ++ (resource.refs ++ s.refs)))
    refine (hperm.append_right _).trans ?_
    refine (List.perm_append_comm_assoc _ _ _).trans (List.Perm.append_left _ ?_)
    exact List.perm_append_comm_assoc _ _ _
  · exact List.nodup_cons.mpr ⟨hid, h.nodup⟩
  · refine List.forall_mem_cons.mpr ⟨⟨?_, Nat.one_pos⟩, fun e he => ?_⟩
    · show 1 = (id :: s.handles).count id
      rw [List.count_cons_self, hnone]
    · have hne : id ≠ e.1 := by
        rintro rfl
        exact hid (List.mem_map_of_mem he)
      rw [List.count_cons_of_ne hne]
      exact h.counted e he
  · refine List.forall_mem_cons.mpr ⟨List.mem_cons_self, fun k hk => ?_⟩
    exact List.mem_cons_of_mem _ (h.held k hk)

/-- An existing resource takes other references, or the application takes or drops a handle of it. -/
theorem Sound.update (h : Sound locals s) {k : κ} {c c' : Counted ι} {counts : ι → Nat}
    {handles : List κ} (hk : s.live.lookup k = some c)
    (htally : Tally counts (locals ++ (s.owned ++
      (c'.resource.refs ++ (s.others k).flatMap fun e => e.2.resource.refs))))
    (hcount : c'.refCount = handles.count k) (hpos : 0 < c'.refCount)
    (hothers : ∀ k', k' ≠ k → handles.count k' = s.handles.count k') :
    Sound locals ⟨counts, (k, c') :: s.others k, handles, s.owned⟩ where
  tally := htally
  nodup := ((h.perm hk).map Prod.fst).nodup_iff.mp h.nodup
  counted := by
    refine List.forall_mem_cons.mpr ⟨⟨hcount, hpos⟩, fun e he => ?_⟩
    obtain ⟨he, hne⟩ := mem_others he
    show e.2.refCount = handles.count e.1 ∧ 0 < e.2.refCount
    rw [hothers e.1 hne]
    exact h.counted e he
  held k' hk' := by
    by_cases hne : k' = k
    · exact hne ▸ List.mem_cons_self
    · have hmem : k' ∈ s.handles := by
        rw [← List.count_pos_iff, ← hothers k' hne]
        exact List.count_pos_iff.mpr hk'
      exact List.mem_cons_of_mem k (h.mem_keys_others hmem hne)

/-- A resource without handles is gone, and so are its references. -/
theorem Sound.remove (h : Sound locals s) {k : κ} {c : Counted ι} {counts : ι → Nat}
    {handles : List κ} (hk : s.live.lookup k = some c)
    (htally : Tally counts (locals ++ (s.owned ++ (s.others k).flatMap fun e => e.2.resource.refs)))
    (hcount : handles.count k = 0) (hothers : ∀ k', k' ≠ k → handles.count k' = s.handles.count k') :
    Sound locals ⟨counts, s.others k, handles, s.owned⟩ where
  tally := htally
  nodup := (((h.perm hk).map Prod.fst).nodup_iff.mp h.nodup).of_cons
  counted e he := by
    obtain ⟨he, hne⟩ := mem_others he
    show e.2.refCount = handles.count e.1 ∧ 0 < e.2.refCount
    rw [hothers e.1 hne]
    exact h.counted e he
  held k' hk' := by
    have hne : k' ≠ k := by
      rintro rfl
      exact List.count_eq_zero.mp hcount hk'
    refine h.mem_keys_others ?_ hne
    rw [← List.count_pos_iff, ← hothers k' hne]
    exact List.count_pos_iff.mpr hk'

/-- What a function creates is its own. -/
theorem Sound.createAll (h : Sound locals s) {is : List ι} (hnodup : is.Nodup)
    (hnew : ∀ i ∈ is, s.counts i = 0) :
    Sound (is ++ locals) { s with counts := Lib.createAll s.counts is } where
  tally := by
    rw [List.append_assoc]
    exact tally_createAll hnodup h.tally hnew
  nodup := h.nodup
  counted := h.counted
  held := h.held

/-- What a function holds it can release. -/
theorem Sound.releaseAll {is : List ι} (h : Sound (is ++ locals) s) :
    ∃ counts, Lib.releaseAll s.counts is = some counts ∧ Sound locals { s with counts } := by
  have htally := h.tally
  rw [List.append_assoc] at htally
  obtain ⟨counts, hcounts, htally⟩ := releaseAll_tally htally
  exact ⟨counts, hcounts, htally, h.nodup, h.counted, h.held⟩

/-! ### The functions -/

theorem Sound.driverCreate (h : Sound locals s) {id : κ} (hid : id ∉ s.live.map Prod.fst)
    (mallocOk : Bool) (arenaBlockSize : Nat) {loaders : List ι} {deviceAllocator : ι}
    (hretained : ∀ i ∈ deviceAllocator :: loaders, i ∈ locals ++ (s.owned ++ s.refs)) :
    ∃ s', driverCreate s id mallocOk arenaBlockSize loaders deviceAllocator = some s' ∧
      Sound locals s' := by
  rw [Driver.driverCreate]
  split
  · exact h.add hid (.refl _) hretained
  · exact ⟨s, rfl, h⟩

theorem Sound.deviceCreate (h : Sound locals s) {id : κ} (hid : id ∉ s.live.map Prod.fst)
    (mallocOk : Bool) (arenaBlockSize : Nat) {loaders : List ι} {deviceAllocator : ι}
    (hretained : ∀ i ∈ deviceAllocator :: loaders, i ∈ locals ++ (s.owned ++ s.refs)) :
    ∃ s', deviceCreate s id mallocOk arenaBlockSize loaders deviceAllocator = some s' ∧
      Sound locals s' := by
  rw [Driver.deviceCreate]
  split
  · exact ⟨s, rfl, h⟩
  · split
    · exact h.add hid (List.perm_append_singleton _ _).symm hretained
    · exact ⟨s, rfl, h⟩

theorem Sound.executableCacheCreate (h : Sound locals s) {id : κ} (hid : id ∉ s.live.map Prod.fst)
    (mallocOk : Bool) {loaders : List ι}
    (hretained : ∀ i ∈ loaders, i ∈ locals ++ (s.owned ++ s.refs)) :
    ∃ s', executableCacheCreate s id mallocOk loaders = some s' ∧ Sound locals s' := by
  rw [Driver.executableCacheCreate]
  split
  · exact h.add hid (.refl _) hretained
  · exact ⟨s, rfl, h⟩

omit [DecidableEq κ] [DecidableEq ι] in
/-- The objects that a call creates are among those it may create. -/
theorem DriverRequest.made_sublist (r : DriverRequest κ ι) :
    (r.made.2.2.toList ++ r.made.2.1 ++ r.made.1.toList).Sublist
      (r.deviceAllocator.toList ++ r.loaders ++ r.pluginManager.toList) := by
  unfold made
  cases r.pluginManager with
  | none => exact List.nil_sublist _
  | some pluginManager =>
    refine List.Sublist.append_right (List.Sublist.append_right ?_ _) _
    cases r.loadersOk with
    | false => exact List.nil_sublist _
    | true => exact .refl _

/-- **The factory** releases what it created; what the driver retained stays. -/
theorem Sound.tryCreate (h : Sound [] s) {r : DriverRequest κ ι} (allowed : Allowed s (.tryCreate r)) :
    ∃ s', tryCreate s r = some s' ∧ Sound [] s' := by
  obtain ⟨hid, hnodup, hnew⟩ := allowed
  by_cases hname : r.driverName ≠ "coralnpu"
  · exact ⟨s, if_pos hname, h⟩
  have hmade := r.made_sublist
  rw [Driver.tryCreate, if_neg hname]
  generalize r.made = made at hmade ⊢
  obtain ⟨pluginManager, loaders, deviceAllocator⟩ := made
  have hcreated := h.createAll (hnodup.sublist hmade) fun i hi => hnew i (hmade.subset hi)
  cases deviceAllocator with
  | none =>
    obtain ⟨counts, hcounts, hsound⟩ := hcreated.releaseAll
    refine ⟨_, ?_, hsound⟩
    exact congrArg (Option.bind · fun counts => some { s with counts }) hcounts
  | some deviceAllocator =>
    have hlocal : ∀ i ∈ deviceAllocator :: loaders,
        i ∈ (some deviceAllocator).toList ++ loaders ++ pluginManager.toList ++ [] := fun i hi =>
      List.mem_append_left _ (List.mem_append_left _ hi)
    obtain ⟨s', hs', hdriver⟩ := hcreated.driverCreate hid r.mallocOk (32 * 1024) fun i hi =>
      List.mem_append_left _ (hlocal i hi)
    obtain ⟨counts, hcounts, hsound⟩ := hdriver.releaseAll
    refine ⟨_, ?_, hsound⟩
    show (Driver.driverCreate _ _ _ _ _ _).bind _ = _
    rw [hs']
    exact congrArg (Option.bind · _) hcounts

/-- **Replacing** references: what is new and what stays is what is old and what is kept. -/
theorem Sound.replace (h : Sound [] s) {k : κ} {c : Counted ι} {new old : List ι}
    {resource : Resource ι} (hk : s.live.lookup k = some c) (hnew : ∀ i ∈ new, 0 < s.counts i)
    (hperm : (new ++ c.resource.refs).Perm (old ++ resource.refs)) :
    ∃ s', replace s k c new old resource = some s' ∧ Sound [] s' := by
  obtain ⟨counts₁, hretain, htally⟩ := retainAll_tally h.tally fun i hi =>
    (h.tally.pos_iff i).mp (hnew i hi)
  have hrefs : (new ++ (s.owned ++ s.refs)).Perm (old ++ (s.owned ++
      (resource.refs ++ (s.others k).flatMap fun e => e.2.resource.refs))) := by
    refine (((h.refs_perm hk).append_left _).append_left _).trans ?_
    refine (List.perm_append_comm_assoc _ _ _).trans ?_
    refine .trans ?_ (List.perm_append_comm_assoc _ _ _)
    rw [← List.append_assoc new, ← List.append_assoc old]
    exact (hperm.append_right _).append_left _
  obtain ⟨counts, hrelease, htally⟩ := releaseAll_tally (htally.perm hrefs)
  have hmem := mem_of_lookup hk
  refine ⟨_, by rw [Driver.replace, hretain]; exact congrArg (Option.bind · _) hrelease, ?_⟩
  exact h.update hk htally (h.counted _ hmem).1 (h.counted _ hmem).2 fun _ _ => rfl

/-- **Releasing** a resource: the last handle destroys it. -/
theorem Sound.releaseResource (h : Sound [] s) {k : κ} {c : Counted ι}
    (hk : s.live.lookup k = some c) : ∃ s', releaseResource s k c = some s' ∧ Sound [] s' := by
  obtain ⟨hcount, hpos⟩ := h.counted _ (mem_of_lookup hk)
  have hothers : ∀ k', k' ≠ k → (s.handles.erase k).count k' = s.handles.count k' :=
    fun k' hne => List.count_erase_of_ne hne
  have hself : (s.handles.erase k).count k = c.refCount - 1 := by
    rw [List.count_erase_self, ← hcount]
  have hrefs := ((h.refs_perm hk).append_left s.owned).trans (List.perm_append_comm_assoc _ _ _)
  rw [Driver.releaseResource]
  split
  next hone =>
    obtain ⟨counts, hrelease, htally⟩ := releaseAll_tally (h.tally.perm hrefs)
    refine ⟨_, by rw [hrelease]; rfl, h.remove hk htally ?_ hothers⟩
    rw [hself, hone]
  next hmore =>
    refine ⟨_, rfl, h.update hk ?_ hself.symm ?_ hothers⟩
    · exact h.tally.perm ((h.refs_perm hk).append_left s.owned)
    · have hpos : 0 < c.refCount := hpos
      show 0 < c.refCount - 1
      omega

/-! ### Runs -/

/-- **One step** of an application that does what it may is defined, and keeps the invariant. -/
theorem sound_step (h : Sound [] s) {a : ApiCall κ ι} (allowed : Allowed s a) :
    ∃ s', callStep s a = some s' ∧ Sound [] s' := by
  cases a with
  | tryCreate request => exact h.tryCreate allowed
  | createDevice driver id mallocOk =>
    obtain ⟨hheld, hdriver, hid⟩ := allowed
    obtain ⟨⟨n, resource⟩, hk⟩ := h.exists_of_handle hheld
    obtain ⟨arenaBlockSize, deviceAllocator, loaders, rfl⟩ := hdriver _ hk
    simp only [callStep, hk]
    -- the driver holds the allocator and the loaders
    exact h.deviceCreate hid mallocOk arenaBlockSize fun i hi => h.mem_refs hk hi
  | createExecutableCache device id mallocOk =>
    obtain ⟨hheld, hdevice, hid⟩ := allowed
    obtain ⟨⟨n, resource⟩, hk⟩ := h.exists_of_handle hheld
    obtain ⟨loaders, deviceAllocator, channelProvider, rfl⟩ := hdevice _ hk
    simp only [callStep, hk]
    exact h.executableCacheCreate hid mallocOk fun i hi => h.mem_refs hk (List.mem_append_left _ hi)
  | replaceDeviceAllocator device newAllocator =>
    obtain ⟨hheld, hdevice, hexists⟩ := allowed
    obtain ⟨⟨n, resource⟩, hk⟩ := h.exists_of_handle hheld
    obtain ⟨loaders, deviceAllocator, channelProvider, rfl⟩ := hdevice _ hk
    simp only [callStep, hk]
    refine h.replace hk (List.forall_mem_singleton.mpr hexists) ?_
    refine (List.perm_append_comm_assoc [newAllocator] loaders _).trans ?_
    refine .trans (.append_left loaders ?_) (List.perm_append_comm_assoc loaders [deviceAllocator] _)
    exact .swap _ _ _
  | replaceChannelProvider device newProvider =>
    obtain ⟨hheld, hdevice, hexists⟩ := allowed
    obtain ⟨⟨n, resource⟩, hk⟩ := h.exists_of_handle hheld
    obtain ⟨loaders, deviceAllocator, channelProvider, rfl⟩ := hdevice _ hk
    simp only [callStep, hk]
    refine h.replace hk (fun i hi => hexists i (Option.mem_toList.mp hi)) ?_
    show (newProvider.toList ++ (loaders ++ ([deviceAllocator] ++ channelProvider.toList))).Perm
      (channelProvider.toList ++ (loaders ++ ([deviceAllocator] ++ newProvider.toList)))
    rw [← List.append_assoc loaders, ← List.append_assoc loaders]
    refine List.perm_append_comm.trans ?_
    rw [List.append_assoc]
    exact List.perm_append_comm_assoc _ _ _
  | retain k =>
    obtain ⟨c, hk⟩ := h.exists_of_handle allowed
    obtain ⟨hcount, -⟩ := h.counted _ (mem_of_lookup hk)
    refine ⟨_, by rw [callStep, hk], h.update hk ?_ ?_ (Nat.succ_pos _) ?_⟩
    · exact h.tally.perm ((h.refs_perm hk).append_left s.owned)
    · show c.refCount + 1 = (k :: s.handles).count k
      rw [List.count_cons_self, ← hcount]
    · exact fun k' hne => List.count_cons_of_ne (Ne.symm hne)
  | release k =>
    obtain ⟨c, hk⟩ := h.exists_of_handle allowed
    simp only [callStep, hk]
    exact h.releaseResource hk
  | create i => exact ⟨_, rfl, tally_create h.tally allowed, h.nodup, h.counted, h.held⟩
  | retainOwned i =>
    obtain ⟨counts, hcounts, htally⟩ := retain_tally h.tally ((h.tally.pos_iff i).mp allowed)
    refine ⟨{ s with counts, owned := i :: s.owned }, ?_, htally, h.nodup, h.counted, h.held⟩
    exact congrArg (Option.bind · _) hcounts
  | releaseOwned i =>
    have hperm := (List.perm_cons_erase allowed).append_right s.refs
    obtain ⟨counts, hcounts, htally⟩ := release_tally (h.tally.perm hperm)
    refine ⟨{ s with counts, owned := s.owned.erase i }, ?_, htally, h.nodup, h.counted, h.held⟩
    exact congrArg (Option.bind · _) hcounts

/-- **The invariant holds in every run.** -/
theorem Reachable.sound (h : Reachable s) : Sound [] s := by
  induction h with
  | initial => exact sound_initial
  | step _ allowed taken ih =>
    obtain ⟨s', hs', hsound⟩ := sound_step ih allowed
    rw [taken] at hs'
    exact Option.some.inj hs' ▸ hsound

end Invariant

/-- **Lifetimes.**  In every run of an application that does what it may, no step touches a loader, an
    allocator or a provider that was destroyed; they exist exactly as long as the application or a driver,
    a device or a cache refers to them, and those as long as the application has a handle.  An application
    that has released everything leaves nothing behind. -/
theorem lifetimes {s : Objects κ ι} (h : Reachable s) :
    (∀ a, Allowed s a → ∃ s', callStep s a = some s') ∧
    (∀ i, 0 < s.counts i ↔ i ∈ s.owned ∨ ∃ e ∈ s.live, i ∈ e.2.resource.refs) ∧
    (∀ k, k ∈ s.live.map Prod.fst ↔ k ∈ s.handles) ∧
    (s.handles = [] → s.owned = [] → s.live = [] ∧ ∀ i, s.counts i = 0) := by
  have hsound := h.sound
  have hexists : ∀ i, 0 < s.counts i ↔ i ∈ s.owned ∨ ∃ e ∈ s.live, i ∈ e.2.resource.refs := by
    intro i
    rw [hsound.tally.pos_iff, List.nil_append, List.mem_append, Objects.refs, List.mem_flatMap]
  have hlive : ∀ k, k ∈ s.live.map Prod.fst ↔ k ∈ s.handles := by
    refine fun k => ⟨fun hk => ?_, hsound.held k⟩
    obtain ⟨e, he, rfl⟩ := List.mem_map.mp hk
    obtain ⟨hcount, hpos⟩ := hsound.counted e he
    exact List.count_pos_iff.mp (hcount ▸ hpos)
  refine ⟨fun a ha => ?_, hexists, hlive, fun hhandles howned => ?_⟩
  · obtain ⟨s', hs', -⟩ := sound_step hsound ha
    exact ⟨s', hs'⟩
  · have hnil : s.live = [] := by
      refine List.eq_nil_iff_forall_not_mem.mpr fun e he => ?_
      have hmem := (hlive e.1).mp (List.mem_map_of_mem he)
      rw [hhandles] at hmem
      cases hmem
    refine ⟨hnil, fun i => Nat.eq_zero_of_not_pos fun hpos => ?_⟩
    obtain hi | ⟨e, he, -⟩ := (hexists i).mp hpos
    · rw [howned] at hi
      cases hi
    · rw [hnil] at he
      cases he

/-- A device keeps the loaders and the allocator when its driver is released. -/
theorem lifetimes_deviceOnly : ∃ s : Objects Nat Nat,
    s.handles = [1] ∧ s.counts 0 = 0 ∧ s.counts 3 = 1 ∧
    (0 < s.counts 3 ↔ 3 ∈ s.owned ∨ ∃ e ∈ s.live, 3 ∈ e.2.resource.refs) := by
  have hdriver : Allowed (Objects.initial : Objects Nat Nat)
      (.tryCreate ⟨"coralnpu", some 0, [1, 2], true, some 3, true, 0⟩) :=
    ⟨by decide, by decide, fun _ _ => rfl⟩
  have created := Reachable.step .initial hdriver rfl
  have opened := Reachable.step created (a := .createDevice 0 1 true)
    ⟨List.mem_cons_self, fun c hc => by cases hc; exact ⟨_, _, _, rfl⟩, by decide⟩ rfl
  have released := Reachable.step opened (a := .release 0) (List.mem_cons_of_mem 1 List.mem_cons_self) rfl
  exact ⟨_, rfl, rfl, rfl, (lifetimes released).2.1 3⟩

end Functions

end CoralNPU.Driver
