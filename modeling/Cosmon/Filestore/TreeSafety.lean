import Cosmon.Filestore.StateTree

namespace Cosmon.Filestore.StateTree

open Cosmon.State.Molecule Cosmon.Core.CollapseContract Cosmon.Filestore.Layout Cosmon.Lib.Runs

/-- The fleets with a directory for the molecule, as a scan meets them. -/
def Tree.holders (t : Tree) (order : List FleetId) (id : MoleculeId) : List FleetId :=
  order.filter (fun f => (t.entry (.fleet f) id).isDir)

/-- One directory is found before another, where `B` says which fleet is met
before which. -/
def Ahead (B : FleetId → FleetId → Prop) : Dir → Dir → Prop
  | .fleet f, .fleet g => B f g
  | .fleet _, .legacy => True
  | .legacy, _ => False

/-- A directory of the molecule that is found before all others of it. -/
structure Leads (B : FleetId → FleetId → Prop) (t : Tree) (id : MoleculeId) (c : Dir) : Prop where
  isDir : (t.entry c id).isDir
  ahead : ∀ d, d ≠ c → (t.entry d id).isDir → Ahead B c d

/-- A scan that agrees with `B` and does not end at a directory without a
state file. -/
structure Settled (B : FleetId → FleetId → Prop) (t : Tree) (order : List FleetId)
    (id : MoleculeId) : Prop where
  reads : ReadsDir t order id
  met : ∀ f g, [f, g].Sublist (t.holders order id) → B f g
  filled : t.entry (t.moleculeDir order id) id ≠ .empty

section Scans

variable {B : FleetId → FleetId → Prop} {t : Tree} {order : List FleetId} {id : MoleculeId}

theorem ahead_asymm (hB : ∀ f g, B f g → ¬B g f) {c d : Dir} (h : Ahead B c d) : ¬Ahead B d c := by
  cases c <;> cases d <;> simp_all [Ahead]

theorem Leads.unique (hB : ∀ f g, B f g → ¬B g f) {c d : Dir} (hc : Leads B t id c)
    (hd : Leads B t id d) : c = d := by
  by_contra hne
  exact ahead_asymm hB (hc.ahead d (Ne.symm hne) hd.isDir) (hd.ahead c hne hc.isDir)

theorem holders_head? : (t.holders order id).head? =
    order.find? (fun f => (t.entry (.fleet f) id).isDir) := List.head?_filter ..

theorem leads_moleculeDir (hreads : ReadsDir t order id)
    (hmet : ∀ f g, [f, g].Sublist (t.holders order id) → B f g) {d : Dir}
    (hd : (t.entry d id).isDir) : Leads B t id (t.moleculeDir order id) := by
  cases hholders : t.holders order id with
  | nil =>
    -- No fleet has the molecule: `d` is the flat directory.
    have hnone : ∀ f, (t.entry (.fleet f) id).isDir = false := by
      intro f
      by_contra hf
      rw [Bool.not_eq_false] at hf
      have : f ∈ t.holders order id := List.mem_filter.mpr ⟨hreads.complete f hf, hf⟩
      rw [hholders] at this
      cases this
    have hlegacy : (t.entry .legacy id).isDir := by
      cases d with
      | fleet f => rw [hnone f] at hd; cases hd
      | legacy => exact hd
    have hdir : t.moleculeDir order id = .legacy := by
      rw [Tree.moleculeDir, ← holders_head?, hholders]
      exact if_pos hlegacy
    rw [hdir]
    refine ⟨hlegacy, fun c hc hcdir => ?_⟩
    cases c with
    | fleet f => rw [hnone f] at hcdir; cases hcdir
    | legacy => exact absurd rfl hc
  | cons f rest =>
    have hf : f ∈ t.holders order id := by
      rw [hholders]
      exact List.mem_cons_self
    have hdir : t.moleculeDir order id = .fleet f := by
      rw [Tree.moleculeDir, ← holders_head?, hholders]
      rfl
    rw [hdir]
    refine ⟨(List.mem_filter.mp hf).2, fun c hc hcdir => ?_⟩
    cases c with
    | legacy => exact trivial
    | fleet g =>
      have hg : g ∈ t.holders order id := List.mem_filter.mpr ⟨hreads.complete g hcdir, hcdir⟩
      rw [hholders] at hg
      have hrest : g ∈ rest := (List.mem_cons.mp hg).resolve_left (fun hgf => hc (by rw [hgf]))
      apply hmet f g
      rw [hholders]
      exact (List.singleton_sublist.mpr hrest).cons_cons f

theorem Settled.leads (h : Settled B t order id) {d : Dir} (hd : (t.entry d id).isDir) :
    Leads B t id (t.moleculeDir order id) := leads_moleculeDir h.reads h.met hd

end Scans

/-- What the holder of the write lock has seen: any record that leads the
molecule's directories accepts the one it is about to write. -/
def Cleared (B : FleetId → FleetId → Prop) (t : Tree) (id : MoleculeId) (data : MoleculeData) : Prop :=
  ∀ c m, Leads B t id c → t.entry c id = .record m → refusesSave m data = false

def CollapsedWith (r : Option CollapseReceipt) (data : MoleculeData) : Prop :=
  data.status = .collapsed ∧ data.collapseReceipt = r

/-- The molecule is collapsed with receipt `r` for every reader, and for the
save under way, if there is one. -/
structure Sealed (B : FleetId → FleetId → Prop) (r : Option CollapseReceipt) (s : Disk)
    (id : MoleculeId) : Prop where
  present : ∃ d, (s.tree.entry d id).isDir
  leads : ∀ c, Leads B s.tree id c →
    s.tree.entry c id = .empty ∨ ∃ m, s.tree.entry c id = .record m ∧ CollapsedWith r m
  writer : ∀ data, s.writer id = some data → CollapsedWith r data

section Steps

variable {B : FleetId → FleetId → Prop} {env : Env} {s s' : Disk} {t t' : Tree} {id : MoleculeId}
  {op : Op} {r : Option CollapseReceipt}

theorem collapsedWith_of_accepted {m data : MoleculeData} (hm : CollapsedWith r m)
    (h : refusesSave m data = false) : CollapsedWith r data := by
  obtain ⟨hstatus, hreceipt⟩ := hm
  simp only [refusesSave, hstatus, hreceipt, decide_true, Bool.true_and, Bool.or_eq_false_iff,
    decide_eq_false_iff_not, not_not] at h
  exact h

theorem Leads.of_grown (hgrown : ∀ d, (t.entry d id).isDir → (t'.entry d id).isDir) {c : Dir}
    (hc : (t.entry c id).isDir) (h : Leads B t' id c) : Leads B t id c :=
  ⟨hc, fun d hne hd => h.ahead d hne (hgrown d hd)⟩

theorem leads_congr (htree : ∀ d, t'.entry d id = t.entry d id) {c : Dir} (h : Leads B t' id c) :
    Leads B t id c :=
  ⟨htree c ▸ h.isDir, fun d hne hd => h.ahead d hne (by rw [htree d]; exact hd)⟩

theorem isDir_createDir (data : MoleculeData) {d : Dir} (h : (t.entry d id).isDir) :
    ((t.createDir data).entry d id).isDir := by
  rcases t.createDir_entry data d id with he | ⟨habsent, -⟩
  · rw [he]
    exact h
  · rw [habsent] at h
    cases h

theorem entry_of_createDir {data : MoleculeData} {c : Dir}
    (hc : (t.createDir data).entry c id ≠ .empty) :
    (t.createDir data).entry c id = t.entry c id :=
  (t.createDir_entry data c id).resolve_right (fun h => hc h.2)

theorem isDir_rename_iff (data : MoleculeData) (d : Dir) (id : MoleculeId) :
    ((t.rename data).entry d id).isDir ↔
      d = .fleet data.fleetId ∧ id = data.id ∨ (t.entry d id).isDir := by
  simp only [Tree.rename, Tree.set]
  split <;> simp_all [Entry.isDir]

theorem checkWrite_record {order : List FleetId} {data m : MoleculeData}
    {expected : Option MoleculeRevision} (h : t.checkWrite env order data expected = .ok ())
    (hm : t.entry (t.moleculeDir order data.id) data.id = .record m) : refusesSave m data = false := by
  rw [Tree.checkWrite, hm] at h
  simp only at h
  split at h
  · cases h
  · rename_i hrefuses
    simpa using hrefuses

theorem checkWrite_cleared (hB : ∀ f g, B f g → ¬B g f) {order : List FleetId} {data : MoleculeData}
    {expected : Option MoleculeRevision} (hscan : Settled B t order data.id)
    (h : t.checkWrite env order data expected = .ok ()) : Cleared B t data.id data := by
  intro c m hc hm
  rw [← (hscan.leads hc.isDir).unique hB hc] at hm
  exact checkWrite_record h hm

theorem step_cleared (hB : ∀ f g, B f g → ¬B g f)
    (hscan : ∀ order, op.scan = some (order, id) → Settled B s.tree order id)
    (h : ∀ data, s.writer id = some data → Cleared B s.tree id data) (data : MoleculeData)
    (hdata : (step env s op).writer id = some data) : Cleared B (step env s op).tree id data := by
  cases step_moves env s id op with
  | stay _ htree hwriter =>
    intro c m hc hm
    rw [htree] at hm
    exact h data (hwriter ▸ hdata) c m (leads_congr htree hc) hm
  | lock order data' expected key free checked htree hwriter =>
    subst key
    cases hwriter.symm.trans hdata
    rw [htree]
    exact checkWrite_cleared hB (hscan order rfl) checked
  | createDir data' key held htree hwriter =>
    cases hwriter.symm.trans hdata
    rw [htree]
    intro c m hc hm
    have hsame := entry_of_createDir (by rw [hm]; simp)
    rw [hsame] at hm
    apply h data held c m _ hm
    exact hc.of_grown (fun d => isDir_createDir data) (by rw [hm]; rfl)
  | rename data' key held htree hwriter => rw [hwriter] at hdata; cases hdata
  | abort htree hwriter => rw [hwriter] at hdata; cases hdata

theorem sealed_of_load (hB : ∀ f g, B f g → ¬B g f) {order : List FleetId} {m : MoleculeData}
    (hscan : Settled B s.tree order id)
    (hcleared : ∀ data, s.writer id = some data → Cleared B s.tree id data)
    (hload : s.tree.loadMolecule order id = .ok m) (hm : CollapsedWith r m) : Sealed B r s id := by
  have hentry : s.tree.entry (s.tree.moleculeDir order id) id = .record m := by
    rw [Tree.loadMolecule] at hload
    split at hload
    · rename_i m' hm'
      cases hload
      exact hm'
    all_goals cases hload
  have hdir : (s.tree.entry (s.tree.moleculeDir order id) id).isDir := by rw [hentry]; rfl
  have hleads := hscan.leads hdir
  refine ⟨⟨_, hdir⟩, fun c hc => .inr ⟨m, ?_, hm⟩, fun data hdata => ?_⟩
  · rw [hc.unique hB hleads]
    exact hentry
  · exact collapsedWith_of_accepted hm (hcleared data hdata _ m hleads hentry)

theorem Sealed.load (h : Sealed B r s id) {order : List FleetId} (hscan : Settled B s.tree order id) :
    ∃ m, s.tree.entry (s.tree.moleculeDir order id) id = .record m ∧ CollapsedWith r m := by
  obtain ⟨d, hd⟩ := h.present
  exact (h.leads _ (hscan.leads hd)).resolve_left hscan.filled

theorem step_sealed (hscan : ∀ order, op.scan = some (order, id) → Settled B s.tree order id)
    (h : Sealed B r s id) : Sealed B r (step env s op) id := by
  obtain ⟨d₀, hd₀⟩ := h.present
  cases step_moves env s id op with
  | stay _ htree hwriter =>
    refine ⟨⟨d₀, by rw [htree]; exact hd₀⟩, fun c hc => ?_, fun data hdata => h.writer data (hwriter ▸ hdata)⟩
    rw [htree]
    exact h.leads c (leads_congr htree hc)
  | lock order data expected key free checked htree hwriter =>
    subst key
    obtain ⟨m, hm, hcollapsed⟩ := h.load (hscan order rfl)
    refine ⟨⟨d₀, htree ▸ hd₀⟩, fun c hc => ?_, fun data' hdata => ?_⟩
    · rw [htree] at hc ⊢
      exact h.leads c hc
    · cases hwriter.symm.trans hdata
      exact collapsedWith_of_accepted hcollapsed (checkWrite_record checked hm)
  | createDir data key held htree hwriter =>
    refine ⟨⟨d₀, ?_⟩, fun c hc => ?_, fun data' hdata => ?_⟩
    · rw [htree]
      exact isDir_createDir data hd₀
    · rw [htree] at hc ⊢
      by_cases hempty : (s.tree.createDir data).entry c id = .empty
      · exact .inl hempty
      · have hsame := entry_of_createDir hempty
        rw [hsame]
        exact h.leads c (hc.of_grown (fun d => isDir_createDir data) (hsame ▸ hc.isDir))
    · cases hwriter.symm.trans hdata
      exact h.writer data held
  | rename data key held htree hwriter =>
    subst key
    refine ⟨⟨d₀, ?_⟩, fun c hc => ?_, fun data' hdata => ?_⟩
    · rw [htree]
      exact (isDir_rename_iff data d₀ data.id).mpr (.inr hd₀)
    · rw [htree] at hc ⊢
      by_cases hself : c = .fleet data.fleetId
      · rw [hself]
        exact .inr ⟨data, s.tree.rename_self data, h.writer data held⟩
      · have hsame := s.tree.rename_of_ne_dir data hself data.id
        rw [hsame]
        exact h.leads c (hc.of_grown (fun d hd => (isDir_rename_iff data d data.id).mpr (.inr hd)) (hsame ▸ hc.isDir))
    · rw [hwriter] at hdata
      cases hdata
  | abort htree hwriter =>
    refine ⟨⟨d₀, htree ▸ hd₀⟩, fun c hc => ?_, fun data hdata => ?_⟩
    · rw [htree] at hc ⊢
      exact h.leads c hc
    · rw [hwriter] at hdata
      cases hdata

end Steps

section Runs

variable (env : Env) (start : Tree) (ops : List Op) (id : MoleculeId)

def Disk.idle (t : Tree) : Disk := ⟨t, fun _ => none, none_keyed⟩

/-- The disk before the `n`-th operation. -/
def diskAt (n : Nat) : Disk := stateAt (step env) (.idle start) ops n

/-- Some scan for the molecule meets fleet `f` before fleet `g`, both with a
directory for it. -/
def Met (f g : FleetId) : Prop :=
  ∃ n op order, ops[n]? = some op ∧ op.scan = some (order, id) ∧
    [f, g].Sublist ((diskAt env start ops n).tree.holders order id)

/-- The answers of `read_dir` to the scans for the molecule are complete. -/
def ReadsDirs : Prop :=
  ∀ n op order, ops[n]? = some op → op.scan = some (order, id) →
    ReadsDir (diskAt env start ops n).tree order id

/-- No scan for the molecule ends at a directory without a state file, and no
two scans meet two of its directories in opposite orders. -/
structure Undisturbed : Prop where
  filled : ∀ n op order, ops[n]? = some op → op.scan = some (order, id) →
    (diskAt env start ops n).tree.entry ((diskAt env start ops n).tree.moleculeDir order id) id ≠ .empty
  ordered : ∀ f g, Met env start ops id f g → ¬Met env start ops id g f

variable {env start ops id}

theorem Undisturbed.settled (h : Undisturbed env start ops id) (hreads : ReadsDirs env start ops id)
    {n : Nat} {op : Op} {order : List FleetId} (hop : ops[n]? = some op)
    (hscan : op.scan = some (order, id)) :
    Settled (Met env start ops id) (diskAt env start ops n).tree order id where
  reads := hreads n op order hop hscan
  met := fun _ _ hsub => ⟨n, op, order, hop, hscan, hsub⟩
  filled := h.filled n op order hop hscan

theorem run_cleared (h : Undisturbed env start ops id) (hreads : ReadsDirs env start ops id) (n : Nat)
    (data : MoleculeData) (hdata : (diskAt env start ops n).writer id = some data) :
    Cleared (Met env start ops id) (diskAt env start ops n).tree id data := by
  have hstart : ∀ data, (diskAt env start ops 0).writer id = some data →
      Cleared (Met env start ops id) (diskAt env start ops 0).tree id data := by
    intro data hdata
    cases hdata
  exact stateAt_preserves (P := fun s : Disk => ∀ data, s.writer id = some data →
      Cleared (Met env start ops id) s.tree id data) _
    (fun k op hop ih => step_cleared h.ordered (fun order => h.settled hreads hop) ih)
    (Nat.zero_le n) hstart data hdata

end Runs

section OneFleet

variable {env : Env} {start : Tree} {ops : List Op} {id : MoleculeId} {home : FleetId}

/-- Every save of the run is into one fleet, and only that fleet is scanned. -/
structure OneFleet (ops : List Op) (home : FleetId) : Prop where
  saves : ∀ order data expected, .lock order data expected ∈ ops → data.fleetId = home
  scans : ∀ op ∈ ops, ∀ order i, op.scan = some (order, i) → order = [home]

/-- No fleet but `home` has, or is about to get, a directory for the molecule. -/
structure AtHome (s : Disk) (id : MoleculeId) (home : FleetId) : Prop where
  tree : ∀ f, f ≠ home → s.tree.entry (.fleet f) id = .absent
  writer : ∀ data, s.writer id = some data → data.fleetId = home

theorem step_atHome {s : Disk} {op : Op}
    (hsave : ∀ order data expected, op = .lock order data expected → data.fleetId = home)
    (h : AtHome s id home) : AtHome (step env s op) id home := by
  cases step_moves env s id op with
  | stay _ htree hwriter =>
    exact ⟨fun f hf => (htree _).trans (h.tree f hf), fun data hdata => h.writer data (hwriter ▸ hdata)⟩
  | lock order data expected key free checked htree hwriter =>
    refine ⟨fun f hf => htree ▸ h.tree f hf, fun data' hdata => ?_⟩
    cases hwriter.symm.trans hdata
    exact hsave order data expected rfl
  | createDir data key held htree hwriter =>
    refine ⟨fun f hf => ?_, fun data' hdata => ?_⟩
    · rw [htree, Tree.createDir]
      split
      · exact h.tree f hf
      · rw [Tree.set_of_ne_dir _ _ _ _ _ (by simpa [h.writer data held] using hf)]
        exact h.tree f hf
    · cases hwriter.symm.trans hdata
      exact h.writer data held
  | rename data key held htree hwriter =>
    refine ⟨fun f hf => ?_, fun data' hdata => ?_⟩
    · rw [htree, Tree.rename_of_ne_dir _ _ (by simpa [h.writer data held] using hf)]
      exact h.tree f hf
    · rw [hwriter] at hdata
      cases hdata
  | abort htree hwriter =>
    refine ⟨fun f hf => htree ▸ h.tree f hf, fun data' hdata => ?_⟩
    rw [hwriter] at hdata
    cases hdata

theorem OneFleet.readsDirs (h : OneFleet ops home)
    (hstart : ∀ f, f ≠ home → start.entry (.fleet f) id = .absent) : ReadsDirs env start ops id := by
  intro n op order hop hscan
  have hhome : AtHome (diskAt env start ops n) id home := by
    apply stateAt_preserves (P := fun s : Disk => AtHome s id home) _ _ (Nat.zero_le n)
    · exact ⟨hstart, fun data hdata => by cases hdata⟩
    · intro k op' hop' ih
      exact step_atHome (fun order data expected hlock =>
        h.saves order data expected (hlock ▸ List.mem_of_getElem? hop')) ih
  rw [h.scans op (List.mem_of_getElem? hop) order id hscan]
  refine ⟨List.nodup_singleton home, fun f hf => ?_⟩
  by_contra hne
  rw [hhome.tree f (fun heq => hne (by simp [heq]))] at hf
  cases hf

theorem OneFleet.not_met (h : OneFleet ops home) (f g : FleetId) : ¬Met env start ops id f g := by
  rintro ⟨n, op, order, hop, hscan, hsub⟩
  rw [h.scans op (List.mem_of_getElem? hop) order id hscan] at hsub
  have hlen := (hsub.trans List.filter_sublist).length_le
  simp at hlen

end OneFleet

section Instances

def exampleEnv : Env := ⟨"", fun _ => "default", id, fun m => toString m.updatedAt, fun _ => ""⟩

def oneRecord (d : Dir) (data : MoleculeData) : Tree where
  entry := fun d' id => if d' = d ∧ id = data.id then .record data else .absent
  keyed := by
    intro d' id m hm
    split at hm
    · rename_i h
      cases hm
      exact h.2.symm
    · cases hm

def receipt : CollapseReceipt := ⟨"v1", "key", "digest", "m", .running, "1", 1⟩

def collapsedRecord : MoleculeData :=
  { id := "m", status := .collapsed, updatedAt := 1, collapseReceipt := some receipt }

def staleRecord : MoleculeData := { id := "m", status := .running }

/-- A collapsed molecule is touched by one save, between two loads. -/
def touchRun : List Op :=
  [.load ["default"] "m", .lock ["default"] { collapsedRecord with updatedAt := 2 } none,
    .createDir "m", .rename "m", .load ["default"] "m"]

theorem touchRun_oneFleet : OneFleet touchRun "default" := by
  constructor
  · intro order data expected hlock
    simp only [touchRun, List.mem_cons, Op.lock.injEq, reduceCtorEq, List.not_mem_nil, false_or,
      or_false] at hlock
    rw [hlock.2.1]
    rfl
  · simp [touchRun, Op.scan]

theorem touchRun_undisturbed :
    Undisturbed exampleEnv (oneRecord (.fleet "default") collapsedRecord) touchRun "m" where
  filled := by
    intro n op order hop hscan
    match n, hop with
    | 0, hop | 1, hop | 2, hop | 3, hop | 4, hop =>
      cases hop
      cases hscan
      try decide
    | n + 5, hop => cases hop
  ordered := fun f g hmet => absurd hmet (touchRun_oneFleet.not_met f g)

/-- In a run whose scans are undisturbed, every load after one that returned a
collapsed record returns a collapsed record with the same receipt, whatever
stale, moving or failing saves come between. -/
theorem load_collapsed_stable {env : Env} {start : Tree} {ops : List Op} {id : MoleculeId}
    (hreads : ReadsDirs env start ops id)
    (h : Undisturbed env start ops id) {i j : Nat} (hij : i ≤ j) {order order' : List FleetId}
    (hi : ops[i]? = some (.load order id)) (hj : ops[j]? = some (.load order' id)) {m : MoleculeData}
    (hload : (diskAt env start ops i).tree.loadMolecule order id = .ok m)
    (hcollapsed : m.status = .collapsed) :
    ∃ m', (diskAt env start ops j).tree.loadMolecule order' id = .ok m' ∧
      m'.status = .collapsed ∧ m'.collapseReceipt = m.collapseReceipt := by
  have hsealed : Sealed (Met env start ops id) m.collapseReceipt (diskAt env start ops i) id :=
    sealed_of_load h.ordered (h.settled hreads hi rfl) (run_cleared h hreads i) hload ⟨hcollapsed, rfl⟩
  have hlater : Sealed (Met env start ops id) m.collapseReceipt (diskAt env start ops j) id :=
    stateAt_preserves (P := fun s : Disk => Sealed (Met env start ops id) m.collapseReceipt s id) _
      (fun k op hop ih => step_sealed (fun order => h.settled hreads hop) ih) hij hsealed
  obtain ⟨m', hm', hwith⟩ := hlater.load (h.settled hreads hj rfl)
  refine ⟨m', ?_, hwith⟩
  rw [Tree.loadMolecule, hm']

theorem load_collapsed_stable_touched :
    ∃ m', (diskAt exampleEnv (oneRecord (.fleet "default") collapsedRecord) touchRun 4).tree.loadMolecule
        ["default"] "m" = .ok m' ∧ m'.status = .collapsed ∧ m'.collapseReceipt = some receipt :=
  load_collapsed_stable
    (touchRun_oneFleet.readsDirs (fun f hf => if_neg (by simp [hf]))) touchRun_undisturbed
    (Nat.zero_le 4) rfl rfl (m := collapsedRecord) rfl rfl

/-- A save of a collapsed molecule of the flat layout creates the directory of
its fleet and fails before the rename; then a stale save comes. -/
def reopenRun : List Op :=
  [.load ["default"] "m", .lock ["default"] { collapsedRecord with updatedAt := 2 } none,
    .createDir "m", .abort "m", .load ["default"] "m",
    .lock ["default"] staleRecord none, .createDir "m", .rename "m",
    .load ["default"] "m"]

theorem reopenRun_oneFleet : OneFleet reopenRun "default" := by
  constructor
  · intro order data expected hlock
    simp only [reopenRun, List.mem_cons, Op.lock.injEq, reduceCtorEq, List.not_mem_nil, false_or,
      or_false] at hlock
    rcases hlock with ⟨-, rfl, -⟩ | ⟨-, rfl, -⟩ <;> rfl
  · simp [reopenRun, Op.scan]

/-- The collapsed molecule is lost to readers after the failed save, and
running again after the stale one. -/
theorem reopenRun_reopens :
    ReadsDirs exampleEnv (oneRecord .legacy collapsedRecord) reopenRun "m" ∧
      (diskAt exampleEnv (oneRecord .legacy collapsedRecord) reopenRun 0).tree.loadMolecule
        ["default"] "m" = .ok collapsedRecord ∧
      (diskAt exampleEnv (oneRecord .legacy collapsedRecord) reopenRun 4).tree.loadMolecule
        ["default"] "m" = .error (.moleculeNotFound "m") ∧
      (diskAt exampleEnv (oneRecord .legacy collapsedRecord) reopenRun 8).tree.loadMolecule
        ["default"] "m" = .ok staleRecord :=
  ⟨reopenRun_oneFleet.readsDirs (fun _ _ => rfl), rfl, rfl, rfl⟩

end Instances

end Cosmon.Filestore.StateTree
