import FlowCheck.Proofs.Precedence
import Mathlib

/-!
# Settings that can be reached

Whatever is done to the settings, and wherever it fails, a value gets into the store only by being
accepted.  So what holds of the empty store and is kept by every accepted value holds of every store
that can be reached (`Store.Stable`).  In particular every value that is set passes the check of its
setting and would be accepted again as it is, and the settings can be carried over to a fresh manager
by their own report.
-/

namespace FlowCheck

/-! ## Accepted values -/

/-- A value as a setting takes it: text becomes a value of the kind of the default. -/
def Setting.taken (s : Setting) (v : Value) : Except SettingFault Value :=
  match v, s.default with
  | .text _, .text _ => .ok v
  | .codes _, .int _ => .error (.invalid v)
  | .codes _, .bool _ => .ok (.bool false)
  | .text t, _ =>
      match s.coerce t with
      | .ok w => .ok w
      | .error _ => .error (.invalid v)
  | _, _ => .ok v

theorem Setting.accept_eq (s : Setting) (v : Value) :
    s.accept v =
      match s.taken v with
      | .error e => .error e
      | .ok w =>
          match s.check.passes? w with
          | none => .error .unorderable
          | some true => .ok w
          | some false => .error (refuse w) :=
  rfl

/-- Text that is read becomes a number or a truth value, and everything else stays what it is. -/
theorem Setting.taken_cases {s : Setting} {v w : Value} (h : s.taken v = .ok w) :
    w = v ∨ (∃ b, w = .bool b) ∨ ∃ n, w = .int n := by
  unfold taken at h
  split at h
  · cases h
    exact Or.inl rfl
  · cases h
  · cases h
    exact Or.inr (Or.inl ⟨false, rfl⟩)
  · -- text for a setting of another kind: it is read as that kind, if there is a way to
    rename_i t hdefault
    unfold coerce at h
    split at h
    · rename_i heq
      split at heq
      · cases heq
        cases h
        exact Or.inr (Or.inl ⟨_, rfl⟩)
      · cases hdecimal : Text.Numeral.decimal t with
        | error e =>
            rw [hdecimal] at heq
            cases heq
        | ok n =>
            rw [hdecimal] at heq
            cases heq
            cases h
            exact Or.inr (Or.inr ⟨n, rfl⟩)
      · cases heq
        cases h
        exact Or.inl rfl
    · cases h
  · cases h
    exact Or.inl rfl

/-- What was accepted is accepted again, as it is. -/
theorem Setting.accept_of_accept {s : Setting} {v w : Value} (h : s.accept v = .ok w) :
    s.accept w = .ok w := by
  have hpasses := Setting.passes_of_accept h
  have htaken : s.taken v = .ok w := by
    rw [accept_eq] at h
    split at h
    · cases h
    · split at h
      · cases h
      · cases h
        assumption
      · cases h
  have hagain : s.taken w = .ok w := by
    rcases taken_cases htaken with rfl | ⟨b, rfl⟩ | ⟨n, rfl⟩
    · exact htaken
    · rfl
    · rfl
  rw [accept_eq, hagain]
  simp only [hpasses]

theorem Key.accept_default (k : Key) :
    k.setting.accept k.setting.default = .ok k.setting.default := by
  cases k <;> rfl

/-! ## What every change of the settings keeps -/

/-- A property of stores that every accepted value keeps. -/
def Store.Stable (P : Store → Prop) : Prop :=
  ∀ (s : Store) (k : Key) (v w : Value), k.setting.accept v = .ok w → P s → P (s.put k w)

/-- An action keeps a property of the store, whether it succeeds or fails. -/
def Manager.Keeps {α : Type} (P : Store → Prop) (action : Manager.Action α) : Prop :=
  ∀ m, P m.store → Ensures action m (fun _ m' => P m'.store) (fun _ m' => P m'.store)

namespace Manager.Keeps

variable {α β : Type} {P : Store → Prop}

theorem pure (a : α) : Keeps P (Pure.pure a : Manager.Action α) :=
  fun _ h => Ensures.of_pure h

theorem throw (e : ConfigFault) : Keeps P (throw e : Manager.Action α) :=
  fun _ h => Ensures.of_throw h

theorem bind {action : Manager.Action α} {next : α → Manager.Action β} (h : Keeps P action)
    (hnext : ∀ a, Keeps P (next a)) : Keeps P (action >>= next) :=
  fun m hm => Ensures.of_bind ((h m hm).mono (fun a m' hm' => hnext a m' hm') (fun _ _ h => h))

theorem get_bind {next : Manager → Manager.Action β} (hnext : ∀ m, Keeps P (next m)) :
    Keeps P (get >>= next) :=
  fun m hm => Ensures.of_bind (Ensures.of_get (hnext m m hm))

/-- What leaves the store alone keeps every property of it. -/
theorem of_modify {change : Manager → Manager} (h : ∀ m, (change m).store = m.store) :
    Keeps P (modify change) :=
  fun m hm => Ensures.of_modify (by rw [h m]; exact hm)

theorem forM {l : List β} {action : β → Manager.Action PUnit} (h : ∀ b, Keeps P (action b)) :
    Keeps P (l.forM action) :=
  fun _ hm => Ensures.of_forM (fun b _ m hm => h b m hm) hm

theorem notify (env : Environment) : Keeps P (Manager.notify env) := by
  refine get_bind (fun _ => forM (fun name => ?_))
  intro m hm
  refine Ensures.of_bind (Ensures.of_get ?_)
  cases m.store.read env .maxSteps with
  | error e => exact Ensures.of_throw hm
  | ok v => exact Ensures.of_set hm

theorem applyNames {path : String} {entries : List (Value × Value)}
    {apply : String → Value → Manager.Action Unit} (h : ∀ name v, Keeps P (apply name v)) :
    Keeps P (Manager.applyNames path entries apply) := by
  apply forM
  rintro ⟨key, v⟩
  cases key with
  | text name => exact h name v
  | _ => exact throw _

theorem applyReserved (path : String) (taken : List String) (name : String) (v : Value) :
    Keeps P (Manager.applyReserved path taken name v) := by
  unfold Manager.applyReserved
  split
  · exact throw _
  · split
    · split
      · refine applyNames (fun below _ => ?_)
        dsimp only
        split <;> exact throw _
      · exact throw _
    · exact throw _

variable (hP : Store.Stable P)

include hP

theorem putValue (k : Key) (v : Value) : Keeps P (Manager.putValue k v) := by
  intro m hm
  rw [Manager.putValue]
  cases haccept : k.setting.accept v with
  | error e => exact Ensures.of_throw hm
  | ok w => exact Ensures.of_modify (hP _ k v w haccept hm)

theorem setPath (env : Environment) (path : String) (v : Value) :
    Keeps P (Manager.setPath env path v) := by
  unfold Manager.setPath
  split
  · exact throw _
  · exact bind (putValue hP _ v) (fun _ => notify env)
  · exact throw _

theorem applySection (s : Section) (entries : List (Value × Value)) :
    Keeps P (Manager.applySection s entries) := by
  refine applyNames (fun name v => ?_)
  split
  · exact putValue hP _ v
  · exact applyReserved _ _ _ _

theorem applyEntries (entries : List (Value × Value)) : Keeps P (Manager.applyEntries entries) := by
  refine applyNames (fun name v => ?_)
  split
  · exact applySection hP _ _
  · exact throw _
  · exact applyReserved _ _ _ _

theorem applyDocument (p : FilePath) (v : Value) : Keeps P (Manager.applyDocument p v) := by
  unfold Manager.applyDocument
  split
  · split
    · refine bind (applyEntries hP _) (fun _ => of_modify (fun m => ?_))
      split <;> rfl
    · exact throw _
  · exact pure _

theorem loadFile (reader : Yaml.Reader) (fs : Files) (p : FilePath) :
    Keeps P (Manager.loadFile reader fs p) := by
  unfold Manager.loadFile
  split
  · exact throw _
  · exact throw _
  · split
    · exact throw _
    · split
      · exact throw _
      · split
        · exact throw _
        · exact throw _
        · exact applyDocument hP p _

theorem loadPresent (reader : Yaml.Reader) (fs : Files) (paths : List FilePath) :
    Keeps P (Manager.loadPresent reader fs paths) := by
  induction paths with
  | nil => exact pure []
  | cons p rest ih =>
      rw [Manager.loadPresent]
      split
      · exact throw _
      · exact ih
      · exact bind (loadFile hP reader fs p) (fun _ => bind ih (fun _ => pure _))

theorem reload (reader : Yaml.Reader) (fs : Files) (env : Environment) :
    Keeps P (Manager.reload reader fs env) :=
  get_bind (fun m => bind (loadPresent hP reader fs m.paths) (fun _ => notify env))

end Manager.Keeps

/-! ## Sequences of requests -/

/-- A request to change the settings, with the environment and the files that it meets and the way
to read them. -/
inductive Manager.Step where
  | set (env : Environment) (path : String) (v : Value)
  | apply (entries : List (Value × Value))
  | load (reader : Yaml.Reader) (fs : Files) (p : FilePath)
  | loadDefaults (reader : Yaml.Reader) (fs : Files) (home : String)
  | reload (reader : Yaml.Reader) (fs : Files) (env : Environment)
  | reset

namespace Manager

/-- What a request does. -/
def Step.action : Step → Action Unit
  | set env path v => setPath env path v
  | apply entries => applyEntries entries
  | load reader fs p => loadFile reader fs p
  | loadDefaults reader fs home => discard (Manager.loadDefaults reader fs home)
  | reload reader fs env => Manager.reload reader fs env
  | reset => modify Manager.reset

/-- The manager behind a request; one that fails leaves what it did before. -/
def after (m : Manager) (step : Step) : Manager :=
  match step.action.run m with
  | .ok _ m' => m'
  | .error _ m' => m'

/-- One request keeps what holds of the empty store and is kept by every accepted value. -/
theorem store_after {P : Store → Prop} (hP : Store.Stable P) (hempty : P {}) {m : Manager}
    (hm : P m.store) (step : Step) : P (m.after step).store := by
  have hkeeps : Ensures step.action m (fun _ m' => P m'.store) (fun _ m' => P m'.store) := by
    cases step with
    | set env path v => exact Keeps.setPath hP env path v m hm
    | apply entries => exact Keeps.applyEntries hP entries m hm
    | load reader fs p => exact Keeps.loadFile hP reader fs p m hm
    | loadDefaults reader fs home =>
        exact Keeps.bind (Keeps.loadPresent hP reader fs _) (fun _ => Keeps.pure ()) m hm
    | reload reader fs env => exact Keeps.reload hP reader fs env m hm
    | reset => exact Ensures.of_modify hempty
  unfold after
  cases hrun : step.action.run m with
  | ok u m' => exact hkeeps.of_ok hrun
  | error e m' => exact hkeeps.of_error hrun

/-- So do any requests, one after the other. -/
theorem store_foldl_after {P : Store → Prop} (hP : Store.Stable P) (hempty : P {})
    (steps : List Step) {m : Manager} (hm : P m.store) :
    P (steps.foldl after m).store := by
  induction steps generalizing m with
  | nil => exact hm
  | cons step rest ih => exact ih (store_after hP hempty hm step)

end Manager

/-! ## Valid stores -/

namespace Store

variable {s : Store} {env : Environment}

/-- Every value that was set is accepted as it is. -/
def Valid (s : Store) : Prop :=
  ∀ k, s.stored k = .null ∨ k.setting.accept (s.stored k) = .ok (s.stored k)

theorem stable_valid : Stable Valid := by
  intro s k v w haccept hs k'
  show (if k' = k then w else s.stored k') = .null ∨
    k'.setting.accept (if k' = k then w else s.stored k') = .ok (if k' = k then w else s.stored k')
  by_cases heq : k' = k
  · subst heq
    rw [if_pos rfl]
    exact Or.inr (Setting.accept_of_accept haccept)
  · rw [if_neg heq]
    exact hs k'

/-- The value that was set, or else the default. -/
def value (s : Store) (k : Key) : Value :=
  match s.stored k with
  | .null => k.setting.default
  | v => v

theorem Valid.accept_value (h : s.Valid) (k : Key) :
    k.setting.accept (s.value k) = .ok (s.value k) := by
  unfold value
  split
  · exact k.accept_default
  · rename_i v hv
    exact (h k).resolve_left hv

/-- No variable of the environment is meant for the settings. -/
def Quiet (env : Environment) : Prop :=
  ∀ e ∈ env, ¬ "SAFEFLOW_".toList <+: e.1.toList

theorem override?_of_quiet (h : Quiet env) (k : Key) : k.setting.override? env = none := by
  obtain ⟨name, hname, hprefix⟩ :
      ∃ name, k.setting.envName = some name ∧ "SAFEFLOW_".toList <+: name.toList := by
    cases k <;> exact ⟨_, rfl, by decide⟩
  rw [Setting.override?, hname]
  dsimp only
  split
  · rfl
  · refine List.lookup_eq_none_iff.2 (fun e he => ?_)
    have hne : name ≠ e.1 := fun heq => h e he (heq ▸ hprefix)
    simpa using hne

theorem read_of_quiet (h : Quiet env) (s : Store) (k : Key) : s.read env k = .ok (s.value k) := by
  unfold read Setting.read value
  rw [override?_of_quiet h]
  cases s.stored k <;> rfl

theorem Valid.problems_eq_nil (hs : s.Valid) (h : Quiet env) : s.problems env = [] := by
  have hnone : ∀ x k, s.problem? env x k = none := by
    intro x k
    simp [problem?, read_of_quiet h, Setting.passes_of_accept (hs.accept_value k)]
  rw [problems, List.flatMap_eq_nil_iff]
  intro x _
  rw [List.filterMap_eq_nil_iff]
  exact fun k _ => hnone x k

/-! ## Carrying settings over -/

/-- The entries of a section that give its settings their values. -/
def sectionEntries (value : Key → Value) (x : Section) : List (Value × Value) :=
  x.keys.map (fun k => (.text k.name, value k))

/-- The entries that give all settings their values. -/
def entries (value : Key → Value) : List (Value × Value) :=
  Section.all.map (fun x => (.text x.name, .map (sectionEntries value x)))

theorem mapM_eq_ok {α β ε : Type} {l : List α} {f : α → Except ε β} {g : α → β}
    (h : ∀ a, f a = .ok (g a)) : l.mapM f = .ok (l.map g) := by
  rw [show f = fun a => pure (g a) from funext h, List.mapM_pure]
  rfl

theorem report_of_quiet (h : Quiet env) (s : Store) :
    s.report env = .ok (.map (entries s.value)) := by
  have hsection : ∀ x, s.sectionReport env x = .ok (.map (sectionEntries s.value x)) := by
    intro x
    have hkeys : x.keys.mapM (fun k => do
        let v ← s.read env k
        return (k.name, v)) = .ok (x.keys.map (fun k => (k.name, s.value k))) :=
      mapM_eq_ok (fun k => by rw [read_of_quiet h]; rfl)
    rw [sectionReport, hkeys]
    show Except.ok (Value.record _) = _
    rw [Value.record, List.map_map]
    rfl
  have hsections : Section.all.mapM (fun x => do
      let v ← s.sectionReport env x
      return (x.name, v)) =
      .ok (Section.all.map (fun x => (x.name, Value.map (sectionEntries s.value x)))) :=
    mapM_eq_ok (fun x => by rw [hsection]; rfl)
  rw [report, hsections]
  show Except.ok (Value.record _) = _
  rw [Value.record, List.map_map]
  rfl

end Store

namespace Manager

variable {value : Key → Value} {m : Manager} {K : Key → Prop}

/-- Some settings are set to given values. -/
def Holds (value : Key → Value) (K : Key → Prop) (m : Manager) : Prop :=
  ∀ k, K k → m.store.stored k = value k

theorem Holds.mono {L : Key → Prop} (h : m.Holds value K) (hL : ∀ k, L k → K k) :
    m.Holds value L :=
  fun k hk => h k (hL k hk)

theorem ensures_putValue {k : Key} (haccept : k.setting.accept (value k) = .ok (value k))
    (hm : m.Holds value K) : Ensures (putValue k (value k)) m
      (fun _ m' => m'.Holds value (fun k' => K k' ∨ k' = k)) (fun _ _ => False) := by
  rw [putValue, haccept]
  refine Ensures.of_modify (fun k' hk' => ?_)
  show (if k' = k then value k else m.store.stored k') = value k'
  -- a setting that has its value already is given the same value again
  by_cases heq : k' = k
  · rw [if_pos heq, heq]
  · rw [if_neg heq]
    exact hm k' (hk'.resolve_right heq)

theorem ofName?_name : ∀ (x : Section), ∀ k ∈ x.keys, Key.ofName? x k.name = some k := by
  intro x
  cases x <;> decide

variable (haccept : ∀ k : Key, k.setting.accept (value k) = .ok (value k))

theorem applyNames_cons (path name : String) (v : Value) (rest : List (Value × Value))
    (apply : String → Value → Action Unit) :
    applyNames path ((.text name, v) :: rest) apply =
      (do apply name v; applyNames path rest apply) :=
  rfl

theorem applySection_cons {x : Section} {k : Key} (hk : k ∈ x.keys) (v : Value)
    (rest : List (Value × Value)) :
    applySection x ((.text k.name, v) :: rest) = (do putValue k v; applySection x rest) := by
  simp only [applySection, applyNames_cons, ofName?_name x k hk]

theorem applyEntries_cons (x : Section) (entries rest : List (Value × Value)) :
    applyEntries ((.text x.name, .map entries) :: rest) =
      (do applySection x entries; applyEntries rest) := by
  have hname : Section.ofName? x.name = some x := by cases x <;> rfl
  simp only [applyEntries, applyNames_cons, hname]

include haccept

/-- The entries of a section set its settings, and set no other to anything else. -/
theorem ensures_applySection (x : Section) {keys : List Key} (hkeys : ∀ k ∈ keys, k ∈ x.keys)
    (hm : m.Holds value K) :
    Ensures (applySection x (keys.map (fun k => (.text k.name, value k)))) m
      (fun _ m' => m'.Holds value (fun k => K k ∨ k ∈ keys)) (fun _ _ => False) := by
  induction keys generalizing m K with
  | nil => exact Ensures.of_pure (hm.mono (by simp))
  | cons k rest ih =>
      have hput := ensures_putValue (haccept k) hm
      rw [List.map_cons, applySection_cons (hkeys k (List.mem_cons_self ..))]
      refine Ensures.of_bind (hput.mono (fun _ m' hm' => ?_) (fun _ _ h => h))
      refine (ih (fun k' hk' => hkeys k' (List.mem_cons_of_mem _ hk')) hm').mono ?_ (fun _ _ h => h)
      exact fun _ _ h => h.mono (fun k' hk' => by simpa [or_assoc] using hk')

/-- The entries of sections set the settings of these sections. -/
theorem ensures_applyEntries (sections : List Section) (hm : m.Holds value K) :
    Ensures (applyEntries
      (sections.map (fun x => (.text x.name, .map (Store.sectionEntries value x))))) m
      (fun _ m' => m'.Holds value (fun k => K k ∨ ∃ x ∈ sections, k ∈ x.keys))
      (fun _ _ => False) := by
  induction sections generalizing m K with
  | nil => exact Ensures.of_pure (hm.mono (by simp))
  | cons x rest ih =>
      have hsection := ensures_applySection haccept x (fun _ h => h) hm
      rw [List.map_cons, applyEntries_cons]
      refine Ensures.of_bind (hsection.mono (fun _ m' hm' => ?_) (fun _ _ h => h))
      refine (ih hm').mono (fun _ _ h => h.mono (fun k hk => ?_)) (fun _ _ h => h)
      simpa [or_assoc] using hk

/-- A fresh manager takes all settings from entries. -/
theorem run_applyEntries (m : Manager) :
    ∃ m', (applyEntries (Store.entries value)).run m = .ok () m' ∧ m'.store.stored = value := by
  have hall : ∀ k : Key, ∃ x ∈ Section.all, k ∈ x.keys := by
    intro k
    cases k <;> decide
  have hnone : m.Holds value (fun _ => False) := fun _ h => h.elim
  have hensures := ensures_applyEntries haccept Section.all hnone
  cases hrun : (applyEntries (Store.entries value)).run m with
  | error e m' => exact (hensures.of_error hrun).elim
  | ok u m' => exact ⟨m', rfl, funext (fun k => hensures.of_ok hrun k (Or.inr (hall k)))⟩

end Manager

theorem Store.value_of_stored {s : Store} {value : Key → Value}
    (haccept : ∀ k : Key, k.setting.accept (value k) = .ok (value k)) (h : s.stored = value) :
    s.value = value := by
  funext k
  unfold Store.value
  rw [h]
  split
  · rename_i hnull
    exact absurd hnull (Key.accept_ne_null (haccept k))
  · rfl

/-- Whatever was asked of the settings, and wherever it failed: with an environment that has no
variable for them, every setting has a value that passes its check, and the report of all settings,
applied as a document, gives a fresh manager the same settings: it reads each of them alike and
reports the same. -/
theorem settings_reloadable (m : Manager) (steps : List Manager.Step) (env : Environment)
    (hquiet : Store.Quiet env) :
    let reached := steps.foldl Manager.after m.reset
    (∀ k, ∃ v, reached.store.read env k = .ok v ∧ k.setting.check.passes? v = some true) ∧
    reached.store.problems env = [] ∧
    ∃ entries, reached.store.report env = .ok (.map entries) ∧
      ∀ fresh : Manager, ∃ m', (Manager.applyEntries entries).run fresh.reset = .ok () m' ∧
        (∀ k, m'.store.read env k = reached.store.read env k) ∧
        m'.store.report env = reached.store.report env := by
  intro reached
  have hempty : Store.Valid {} := fun _ => Or.inl rfl
  have hvalid : reached.store.Valid :=
    Manager.store_foldl_after Store.stable_valid hempty steps hempty
  have haccept := hvalid.accept_value
  refine ⟨fun k => ?_, hvalid.problems_eq_nil hquiet, _, Store.report_of_quiet hquiet _,
    fun fresh => ?_⟩
  · exact ⟨_, Store.read_of_quiet hquiet _ k, Setting.passes_of_accept (haccept k)⟩
  · obtain ⟨m', hrun, hstored⟩ := Manager.run_applyEntries haccept fresh.reset
    have hvalue := Store.value_of_stored haccept hstored
    refine ⟨m', hrun, fun k => ?_, ?_⟩
    · rw [Store.read_of_quiet hquiet, Store.read_of_quiet hquiet, hvalue]
    · rw [Store.report_of_quiet hquiet, Store.report_of_quiet hquiet, hvalue]

namespace Sample

/-- A document that fails at its second setting, and then a text that is no number. -/
def failing : List Manager.Step :=
  [.apply [(.text "runtime", .map [(.text "max_steps", .int 10),
      (.text "return_stack_limit", .int 0)])],
    .set [] "validator.stack_limit" (.text "many")]

theorem stored_failing :
    (failing.foldl Manager.after ({} : Manager).reset).store.stored .maxSteps = .int 10 := by
  rfl

end Sample

theorem settings_reloadable_failing :
    Store.Quiet [("LANG", "C")] ∧
    (Sample.failing.foldl Manager.after ({} : Manager).reset).store.stored .maxSteps = .int 10 ∧
    (Sample.failing.foldl Manager.after ({} : Manager).reset).store.problems
      [("LANG", "C")] = [] := by
  have hquiet : Store.Quiet [("LANG", "C")] := by
    unfold Store.Quiet
    decide
  obtain ⟨-, hproblems, -⟩ := settings_reloadable {} Sample.failing [("LANG", "C")] hquiet
  exact ⟨hquiet, Sample.stored_failing, hproblems⟩

end FlowCheck
