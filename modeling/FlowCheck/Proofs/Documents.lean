import FlowCheck.Proofs.ReachableSettings

/-!
# Documents that are refused or leave well-typed settings

A document is meant to be refused as such or to leave every setting with a value of the kind of its
default.  It is taken apart into what it asks for, in its order (`Ask.ofEntries`), and ends at the
first ask that is not met.

That a value is of the wrong kind is noticed only by comparing it.  So a limit that is given neither
a number nor a text ends in a comparison that fails, and a limit that is given a truth value or a
float within its bounds takes it.  Besides, a refusal names the value, which fails for a number that
is too long to be written, and a section may have a key that is no text.  `Accountable` leaves out
these cases and nothing else.
-/

namespace FlowCheck

/-! ## Numerals that are read can be written -/

namespace Text.Numeral

theorem readDigits_lt {base value count n digits : Nat} {owed : Bool} {cs : List Char}
    (hvalue : value < base ^ count) (h : readDigits base value count owed cs = some (n, digits)) :
    n < base ^ digits := by
  induction cs generalizing value count owed with
  | nil =>
      rw [readDigits] at h
      split at h
      · cases h
      · cases h
        exact hvalue
  | cons c cs ih =>
      rw [readDigits] at h
      split at h
      · split at h
        · cases h
        · exact ih hvalue h
      · cases hdigit : digitIn? base c with
        | none =>
            rw [hdigit] at h
            cases h
        | some d =>
            rw [hdigit] at h
            have hd : d < base := by simpa using (Option.filter_eq_some_iff.1 hdigit).2
            refine ih ?_ h
            calc base * value + d < base * value + base := by omega
              _ = base * (value + 1) := by ring
              _ ≤ base * base ^ count := Nat.mul_le_mul_left _ hvalue
              _ = base ^ (count + 1) := (Nat.pow_succ' ..).symm

theorem readDecimal_lt {base n : Nat} {text : String} {cs : List Char}
    (h : readDecimal base text cs = .ok n) : n < 10 ^ digitLimit := by
  unfold readDecimal at h
  split at h
  · cases h
  · rename_i value count hread
    split at h
    · cases h
    · rename_i hcount
      split at h
      · cases h
        have hlt : n < 10 ^ count := readDigits_lt (by simp) hread
        exact hlt.trans_le (Nat.pow_le_pow_right (by decide) (not_lt.1 hcount))
      · cases h

/-- A sign changes nothing about the size of what is read. -/
theorem natAbs_of_signed {read : List Char → Except Error Nat} {cs : List Char} {n : Int}
    (h : signed read cs = .ok n) : ∃ rest, read rest = .ok n.natAbs := by
  have hsize : ∀ (result : Except Error Nat) (sign : Int → Int),
      (∀ m, (sign m).natAbs = m.natAbs) →
      Except.map sign (do return ((← result : Nat) : Int)) = .ok n → result = .ok n.natAbs := by
    rintro (e | m) sign hsign hresult
    · cases hresult
    · cases hresult
      rw [hsign, Int.natAbs_natCast]
  unfold signed at h
  split at h
  · exact ⟨_, hsize _ _ Int.natAbs_neg h⟩
  · exact ⟨_, hsize _ _ (fun _ => rfl) h⟩
  · exact ⟨_, hsize _ _ (fun _ => rfl) h⟩

theorem isPrintable_of_decimal {text : String} {n : Int} (h : decimal text = .ok n) :
    isPrintable n = true := by
  obtain ⟨rest, hread⟩ := natAbs_of_signed h
  exact decide_eq_true (readDecimal_lt hread)

end Text.Numeral

/-! ## Kinds of values -/

namespace Value

/-- Whether a value is a number of some kind. -/
def isNumber : Value → Bool
  | bool _ | int _ | float _ | opcode _ => true
  | _ => false

/-- Whether a value is a text. -/
def isText : Value → Bool
  | text _ | codes _ => true
  | _ => false

theorem isPrintable_of_isText {v : Value} (h : v.isText = true) : v.isPrintable = true := by
  cases v with
  | text s => simp [isPrintable]
  | codes points => simp [isPrintable]
  | _ => cases h

/-- Only a text equals a text. -/
theorem eq_text_of_same {v : Value} {t : String} (h : v.same (text t) = true) :
    ∃ s, v = text s := by
  cases v with
  | text s => exact ⟨s, rfl⟩
  | _ => simp [same, order?, integer?] at h

end Value

/-- The faults by which a document, a path or a file is refused. -/
def ConfigFault.isRefusal : ConfigFault → Bool
  | setting (.invalid _) | invalidPath _ | unknownKey _ | unknownPoints _ _ | notMapping _
  | fileNotFound _ | malformed _ | fileNotMapping _ => true
  | _ => false

/-- Numbers compare with bounds. -/
theorem Check.passes?_positive_of_isNumber {v : Value} (h : v.isNumber = true) (high : Option Nat) :
    ∃ b, (positive high).passes? v = some b := by
  have hlow : ∃ o, (Value.int 0).order? v = some o := by
    cases v <;> first | exact ⟨_, rfl⟩ | cases h
  have hhigh : ∀ n, ∃ o, v.order? (.nat n) = some o := by
    intro n
    cases v <;> first | exact ⟨_, rfl⟩ | cases h
  obtain ⟨o, ho⟩ := hlow
  have hholds : holds? Ordering.isLT (.int 0) v = some (o.any Ordering.isLT) := by
    rw [holds?, ho, Option.map_some]
  unfold passes?
  dsimp only
  rw [hholds]
  split
  · rename_i n _
    obtain ⟨o', ho'⟩ := hhigh n
    exact ⟨_, by rw [holds?, ho', Option.map_some]⟩
  · exact ⟨_, rfl⟩

/-- What is no number has no order with bounds. -/
theorem Check.passes?_positive_eq_none {v : Value} (hnumber : v.isNumber = false)
    (high : Option Nat) : (positive high).passes? v = none := by
  have hholds : holds? Ordering.isLT (.int 0) v = none := by
    cases v <;> first | rfl | cases hnumber
  unfold passes?
  dsimp only
  rw [hholds]

namespace Key

variable {k : Key} {v w : Value}

/-- Whether a setting is a number; the others are modes. -/
def isLimit (k : Key) : Bool :=
  match k.setting.default with
  | .int _ => true
  | _ => false

theorem setting_of_limit (h : k.isLimit = true) :
    ∃ d high, k.setting.default = .int d ∧ k.setting.check = .positive high := by
  cases k <;> first | exact ⟨_, _, rfl, rfl⟩ | cases h

theorem setting_of_mode (h : k.isLimit = false) :
    ∃ d choices, k.setting.default = .text d ∧ k.setting.check = texts choices := by
  cases k <;> first | exact ⟨_, _, rfl, rfl⟩ | cases h

/-- A value is of the kind of the default and passes the check. -/
def Suits (k : Key) (v : Value) : Prop :=
  v.kindName = k.setting.default.kindName ∧ k.setting.check.passes? v = some true

/-- A value is not taken, and not because it is refused: it is neither a number nor a text and
cannot be compared with the bounds of a limit, or it fails the check and cannot be named. -/
def Escapes (k : Key) (v : Value) : Prop :=
  (k.isLimit = true ∧ v.isNumber = false ∧ v.isText = false) ∨
    (v.isPrintable = false ∧ k.setting.check.passes? v ≠ some true)

/-- All that a setting does with a value. -/
inductive Treats (k : Key) : Value → Except SettingFault Value → Prop where
  /-- A number within the bounds of a limit, or a choice of a mode, is taken as it is. -/
  | taken {v : Value} (hpasses : k.setting.check.passes? v = some true)
      (hkind : k.isLimit = true → v.isNumber = true) : Treats k v (.ok v)
  /-- A text is read as the number of a limit. -/
  | read {t : String} {n : Int} (hlimit : k.isLimit = true)
      (hpasses : k.setting.check.passes? (.int n) = some true) : Treats k (.text t) (.ok (.int n))
  | fails {v : Value} (hpasses : k.setting.check.passes? v = some false)
      (hkind : k.isLimit = true → v.isNumber = true) : Treats k v (.error (Setting.refuse v))
  /-- A text is no number within the bounds of a limit. -/
  | misread {v w : Value} (htext : v.isText = true) : Treats k v (.error (.invalid w))
  | unordered {v : Value} (hlimit : k.isLimit = true) (hnumber : v.isNumber = false)
      (htext : v.isText = false) : Treats k v (.error .unorderable)

/-- A value that is not read is checked as it is. -/
theorem treats_of_taken (htaken : k.setting.taken v = .ok v)
    (hkind : k.isLimit = true → v.isNumber = true) {b : Bool}
    (hb : k.setting.check.passes? v = some b) : k.Treats v (k.setting.accept v) := by
  rw [Setting.accept_eq, htaken]
  dsimp only
  rw [hb]
  cases b with
  | true => exact .taken hb hkind
  | false => exact .fails hb hkind

/-- A limit reads a text as a number. -/
theorem treats_of_text (hlimit : k.isLimit = true) (t : String) :
    k.Treats (.text t) (k.setting.accept (.text t)) := by
  obtain ⟨d, high, hdefault, hcheck⟩ := setting_of_limit hlimit
  have hcoerce : k.setting.coerce t = (Text.Numeral.decimal t).map Value.int := by
    rw [Setting.coerce, hdefault]
  rw [Setting.accept_eq]
  cases hread : Text.Numeral.decimal t with
  | error e =>
      have htaken : k.setting.taken (.text t) = .error (.invalid (.text t)) := by
        unfold Setting.taken
        rw [hdefault]
        dsimp only
        rw [hcoerce, hread]
        rfl
      rw [htaken]
      exact .misread rfl
  | ok n =>
      have htaken : k.setting.taken (.text t) = .ok (.int n) := by
        unfold Setting.taken
        rw [hdefault]
        dsimp only
        rw [hcoerce, hread]
        rfl
      rw [htaken]
      obtain ⟨b, hb⟩ := Check.passes?_positive_of_isNumber (v := .int n) rfl high
      dsimp only
      rw [hcheck, hb]
      cases b with
      | true => exact .read hlimit (hcheck ▸ hb)
      | false =>
          -- a number that was read is short enough to be named
          have hnamed : (Value.int n).isPrintable = true := by
            rw [Value.isPrintable]
            exact Text.Numeral.isPrintable_of_decimal hread
          dsimp only
          rw [Setting.refuse, if_pos hnamed]
          exact .misread rfl

theorem treats_limit (hlimit : k.isLimit = true) (v : Value) : k.Treats v (k.setting.accept v) := by
  obtain ⟨d, high, hdefault, hcheck⟩ := setting_of_limit hlimit
  cases htext : v.isText with
  | false =>
      have htaken : k.setting.taken v = .ok v := by
        unfold Setting.taken
        rw [hdefault]
        cases v <;> first | rfl | cases htext
      cases hnumber : v.isNumber with
      | true =>
          obtain ⟨b, hb⟩ := Check.passes?_positive_of_isNumber hnumber high
          exact treats_of_taken htaken (fun _ => hnumber) (hcheck ▸ hb)
      | false =>
          rw [Setting.accept_eq, htaken, hcheck]
          dsimp only
          rw [Check.passes?_positive_eq_none hnumber]
          exact .unordered hlimit hnumber htext
  | true =>
      cases v with
      | text t => exact treats_of_text hlimit t
      | codes points =>
          have htaken : k.setting.taken (.codes points) = .error (.invalid (.codes points)) := by
            unfold Setting.taken
            rw [hdefault]
          rw [Setting.accept_eq, htaken]
          exact .misread rfl
      | _ => cases htext

theorem treats_mode (hmode : k.isLimit = false) (v : Value) : k.Treats v (k.setting.accept v) := by
  obtain ⟨d, choices, hdefault, hcheck⟩ := setting_of_mode hmode
  have htaken : k.setting.taken v = .ok v := by
    unfold Setting.taken
    rw [hdefault]
    cases v <;> rfl
  obtain ⟨b, hb⟩ : ∃ b, k.setting.check.passes? v = some b := by
    rw [hcheck]
    exact ⟨_, rfl⟩
  exact treats_of_taken htaken (fun hlimit => by simp [hmode] at hlimit) hb

theorem treats (k : Key) (v : Value) : k.Treats v (k.setting.accept v) := by
  cases hlimit : k.isLimit with
  | true => exact treats_limit hlimit v
  | false => exact treats_mode hlimit v

/-- A value that is not taken is refused as such unless it escapes. -/
theorem isRefusal_iff {e : SettingFault} (h : k.setting.accept v = .error e) :
    (ConfigFault.setting e).isRefusal = true ↔ ¬ k.Escapes v := by
  have htreats := k.treats v
  rw [h] at htreats
  cases htreats with
  | fails hpasses hkind =>
      have hescapes : k.Escapes v ↔ v.isPrintable = false := by
        constructor
        · rintro (⟨hlimit, hnumber, -⟩ | ⟨hprintable, -⟩)
          · rw [hkind hlimit] at hnumber
            cases hnumber
          · exact hprintable
        · exact fun hprintable => Or.inr ⟨hprintable, by simp [hpasses]⟩
      rw [hescapes, Setting.refuse]
      cases v.isPrintable <;> simp [ConfigFault.isRefusal]
  | misread htext =>
      have hprintable := Value.isPrintable_of_isText htext
      simp [ConfigFault.isRefusal, Escapes, htext, hprintable]
  | unordered hlimit hnumber htext =>
      have hescapes : k.Escapes v := Or.inl ⟨hlimit, hnumber, htext⟩
      simp [ConfigFault.isRefusal, hescapes]

/-- What is taken is of the kind of the default if it was given as a text or as a value of that
kind. -/
theorem kindName_iff_of_accept (h : k.setting.accept v = .ok w) :
    w.kindName = k.setting.default.kindName ↔
      v.isText = true ∨ v.kindName = k.setting.default.kindName := by
  have htreats := k.treats v
  rw [h] at htreats
  cases htreats with
  | taken hpasses hkind =>
      refine ⟨Or.inr, fun hgiven => hgiven.elim (fun htext => ?_) id⟩
      cases hlimit : k.isLimit with
      | true =>
          have hnumber := hkind hlimit
          cases v <;> cases htext <;> cases hnumber
      | false =>
          obtain ⟨d, choices, hdefault, -⟩ := setting_of_mode hlimit
          rw [hdefault]
          cases v <;> first | rfl | cases htext
  | read hlimit hpasses =>
      obtain ⟨d, high, hdefault, -⟩ := setting_of_limit hlimit
      simp [hdefault, Value.kindName, Value.isText]

/-- Only texts pass the check of a mode. -/
theorem eq_text_of_passes (hmode : k.isLimit = false)
    (hpasses : k.setting.check.passes? v = some true) : ∃ t, v = .text t := by
  obtain ⟨d, choices, -, hcheck⟩ := setting_of_mode hmode
  rw [hcheck, texts, Check.passes?, Option.some.injEq, List.any_eq_true] at hpasses
  obtain ⟨choice, hchoice, hsame⟩ := hpasses
  obtain ⟨t, -, rfl⟩ := List.mem_map.1 hchoice
  exact Value.eq_text_of_same hsame

end Key

/-! ## What a document asks for -/

/-- What an entry of a document asks for. -/
inductive Ask where
  /-- A value for a setting. -/
  | assign (k : Key) (v : Value)
  /-- Something under a name that is not there. -/
  | unknown (path : String)
  /-- Something under a text that is no name. -/
  | unknownPoints (path : String) (points : List Nat)
  /-- A part of the settings with something else than a mapping. -/
  | notMapping (path : String)
  /-- Something under a key that is no text. -/
  | misnamed

namespace Ask

variable {a : Ask}

/-- What entries ask for whose keys are names, under a path. -/
def ofNames (path : String) (entries : List (Value × Value)) (ask : String → Value → List Ask) :
    List Ask :=
  entries.flatMap (fun (key, v) =>
    match key with
    | .text name => ask name v
    | .codes points => [unknownPoints path points]
    | _ => [misnamed])

/-- What a name asks for that holds no setting. -/
def ofReserved (path : String) (taken : List String) (name : String) (v : Value) : List Ask :=
  if !taken.contains name then [unknown (path ++ name)]
  else
    match v with
    | .map inner =>
        if name == Reserved.kind then
          let inside := path ++ name ++ "."
          ofNames inside inner (fun below _ =>
            let full := inside ++ below
            if (taken ++ Reserved.ofKind).contains below then [notMapping full] else [unknown full])
        else [notMapping (path ++ name)]
    | _ => [notMapping (path ++ name)]

/-- What a section of a document asks for. -/
def ofSection (s : Section) (entries : List (Value × Value)) : List Ask :=
  ofNames (s.name ++ ".") entries (fun name v =>
    match Key.ofName? s name with
    | some k => [assign k v]
    | none => ofReserved (s.name ++ ".") Reserved.own name v)

/-- What a document asks for. -/
def ofEntries (entries : List (Value × Value)) : List Ask :=
  ofNames "" entries (fun name v =>
    match Section.ofName? name, v with
    | some s, .map inner => ofSection s inner
    | some _, _ => [notMapping name]
    | none, _ => ofReserved "" (Reserved.own ++ Reserved.whole) name v)

/-- Does what is asked for. -/
def perform : Ask → Manager.Action Unit
  | assign k v => Manager.putValue k v
  | unknown path => throw (.unknownKey path)
  | unknownPoints path points => throw (.unknownPoints path points)
  | notMapping path => throw (.notMapping path)
  | misnamed => throw .keyNotText

/-- Why an ask is not met, if it is not. -/
def fault? : Ask → Option ConfigFault
  | assign k v =>
      match k.setting.accept v with
      | .ok _ => none
      | .error e => some (.setting e)
  | unknown path => some (.unknownKey path)
  | unknownPoints path points => some (.unknownPoints path points)
  | notMapping path => some (.notMapping path)
  | misnamed => some .keyNotText

/-- The value that an ask gives a setting. -/
def gives (k : Key) : Ask → Option Value
  | assign k' v => if k' = k then some v else none
  | _ => none

/-- The last value that is given to a setting. -/
def last (k : Key) : List Ask → Option Value
  | [] => none
  | a :: rest => (last k rest).or (a.gives k)

/-- An ask is not met, and not because it is refused. -/
def Escapes : Ask → Prop
  | assign k v => k.Escapes v
  | misnamed => True
  | _ => False

theorem fault?_of_ok {k : Key} {v w : Value} (h : k.setting.accept v = .ok w) :
    (assign k v).fault? = none := by
  simp only [fault?, h]

theorem fault?_of_error {k : Key} {v : Value} {e : SettingFault}
    (h : k.setting.accept v = .error e) : (assign k v).fault? = some (.setting e) := by
  simp only [fault?, h]

theorem isRefusal_iff {f : ConfigFault} (h : a.fault? = some f) :
    f.isRefusal = true ↔ ¬ a.Escapes := by
  cases a with
  | assign k v =>
      cases haccept : k.setting.accept v with
      | ok w =>
          rw [fault?_of_ok haccept] at h
          cases h
      | error e =>
          rw [fault?_of_error haccept] at h
          cases h
          exact Key.isRefusal_iff haccept
  | _ =>
      cases h
      simp [Escapes, ConfigFault.isRefusal]

/-! ### The entries of a document are performed as asks -/

theorem forM_singleton (a : Ask) : [a].forM perform = a.perform := by
  show (a.perform >>= fun _ => pure ⟨⟩) = a.perform
  exact bind_pure a.perform

theorem forM_append (asks rest : List Ask) :
    (asks ++ rest).forM perform = asks.forM perform >>= fun _ => rest.forM perform :=
  List.forM_append

theorem applyNames_eq {path : String} {entries : List (Value × Value)}
    {apply : String → Value → Manager.Action Unit} {ask : String → Value → List Ask}
    (h : ∀ name v, apply name v = (ask name v).forM perform) :
    Manager.applyNames path entries apply = (ofNames path entries ask).forM perform := by
  induction entries with
  | nil => rfl
  | cons entry rest ih =>
      obtain ⟨key, v⟩ := entry
      rw [ofNames, List.flatMap_cons, ← ofNames, forM_append, ← ih]
      cases key with
      | text name => rw [← h]; rfl
      | _ => rw [forM_singleton]; rfl

theorem applyReserved_eq (path : String) (taken : List String) (name : String) (v : Value) :
    Manager.applyReserved path taken name v = (ofReserved path taken name v).forM perform := by
  unfold Manager.applyReserved ofReserved
  split
  · rw [forM_singleton]; rfl
  · cases v with
    | map inner =>
        dsimp only
        split
        · apply applyNames_eq
          intro below _
          split <;> rw [forM_singleton] <;> rfl
        · rw [forM_singleton]; rfl
    | _ => rw [forM_singleton]; rfl

theorem applySection_eq (s : Section) (entries : List (Value × Value)) :
    Manager.applySection s entries = (ofSection s entries).forM perform := by
  apply applyNames_eq
  intro name v
  cases Key.ofName? s name with
  | some k => rw [forM_singleton]; rfl
  | none => exact applyReserved_eq _ _ name v

theorem applyEntries_eq (entries : List (Value × Value)) :
    Manager.applyEntries entries = (ofEntries entries).forM perform := by
  apply applyNames_eq
  intro name v
  cases Section.ofName? name with
  | none => exact applyReserved_eq _ _ name v
  | some s =>
      cases v with
      | map inner => exact applySection_eq s inner
      | _ => rw [forM_singleton]; rfl

end Ask

/-! ## Where a document ends -/

/-- The settings that are given a value hold it as they take it, and the others are left alone. -/
def Manager.Follows (given : Key → Option Value) (m m' : Manager) : Prop :=
  ∀ k, match given k with
    | some v => k.setting.accept v = .ok (m'.store.stored k)
    | none => m'.store.stored k = m.store.stored k

/-- What is given later wins. -/
theorem Manager.Follows.trans {given given' : Key → Option Value} {m m' m'' : Manager}
    (h : Follows given m m') (h' : Follows given' m' m'') :
    Follows (fun k => (given' k).or (given k)) m m'' := by
  intro k
  have hk := h k
  have hk' := h' k
  dsimp only
  cases hgiven' : given' k with
  | some v =>
      rw [hgiven'] at hk'
      exact hk'
  | none =>
      rw [hgiven'] at hk'
      dsimp only at hk'
      rw [Option.none_or, hk']
      exact hk

namespace Ask

theorem ensures_perform (a : Ask) (m : Manager) :
    Ensures a.perform m (fun _ m' => a.fault? = none ∧ Manager.Follows (fun k => a.gives k) m m')
      (fun f _ => a.fault? = some f) := by
  cases a with
  | assign k v =>
      change Ensures (Manager.putValue k v) m _ _
      rw [Manager.putValue]
      cases haccept : k.setting.accept v with
      | error e => exact Ensures.of_throw (fault?_of_error haccept)
      | ok w =>
          refine Ensures.of_modify ⟨fault?_of_ok haccept, fun k' => ?_⟩
          show match (if k = k' then some v else none) with
            | some v => k'.setting.accept v = .ok (if k' = k then w else m.store.stored k')
            | none => (if k' = k then w else m.store.stored k') = m.store.stored k'
          by_cases heq : k = k'
          · subst heq
            rw [if_pos rfl, if_pos rfl]
            exact haccept
          · rw [if_neg heq, if_neg (Ne.symm heq)]
  | _ => exact Ensures.of_throw rfl

/-- Asks are performed up to the first one that is not met. -/
theorem ensures_forM (asks : List Ask) (m : Manager) :
    Ensures (asks.forM perform) m
      (fun _ m' => (∀ a ∈ asks, a.fault? = none) ∧ Manager.Follows (fun k => last k asks) m m')
      (fun f _ => ∃ a, asks.find? (fun a => a.fault?.isSome) = some a ∧ a.fault? = some f) := by
  induction asks generalizing m with
  | nil => exact Ensures.of_pure ⟨by simp, fun _ => rfl⟩
  | cons a rest ih =>
      change Ensures (a.perform >>= fun _ => rest.forM perform) m _ _
      refine Ensures.of_bind ((ensures_perform a m).mono ?_ ?_)
      · rintro _ m' ⟨hmet, hfollows⟩
        refine (ih m').mono ?_ ?_
        · rintro _ m'' ⟨hall, hrest⟩
          exact ⟨List.forall_mem_cons.2 ⟨hmet, hall⟩, hfollows.trans hrest⟩
        · rintro f m'' ⟨b, hfind, hb⟩
          refine ⟨b, ?_, hb⟩
          rw [List.find?_cons_of_neg (by simp [hmet]), hfind]
      · intro f m' hf
        exact ⟨a, List.find?_cons_of_pos (by simp [hf]), hf⟩

end Ask

/-! ## Accountable documents -/

/-- Every value that was set is of the kind of the default and passes the check. -/
def Store.WellTyped (s : Store) : Prop :=
  ∀ k, s.stored k = .null ∨ k.Suits (s.stored k)

/-- A document is refused as such or leaves well-typed settings. -/
def Manager.Lawful (m : Manager) (entries : List (Value × Value)) : Prop :=
  Ensures (applyEntries entries) m (fun _ m' => m'.store.WellTyped)
    (fun f _ => f.isRefusal = true)

/-- What a document has to ask for so that it is refused as such or leaves well-typed settings. -/
structure Accountable (asks : List Ask) : Prop where
  /-- The first ask that is not met is refused. -/
  refused : ∀ a, asks.find? (fun a => a.fault?.isSome) = some a → ¬ a.Escapes
  /-- If all are met, the last value of each setting is a text or of the kind of the default. -/
  typed : (∀ a ∈ asks, a.fault? = none) → ∀ k v, Ask.last k asks = some v →
    v.isText = true ∨ v.kindName = k.setting.default.kindName

theorem Manager.Follows.wellTyped_iff {given : Key → Option Value} {m m' : Manager}
    (h : Follows given m m') (hm : m.store.WellTyped) :
    m'.store.WellTyped ↔ ∀ k v, given k = some v →
      v.isText = true ∨ v.kindName = k.setting.default.kindName := by
  have hgiven : ∀ k v, given k = some v → k.setting.accept v = .ok (m'.store.stored k) := by
    intro k v hv
    have hk := h k
    rwa [hv] at hk
  constructor
  · intro hm' k v hv
    have haccept := hgiven k v hv
    have hsuits := (hm' k).resolve_left (Key.accept_ne_null haccept)
    exact (Key.kindName_iff_of_accept haccept).1 hsuits.1
  · intro hkinds k
    cases hv : given k with
    | none =>
        have hk := h k
        rw [hv] at hk
        dsimp only at hk
        rw [hk]
        exact hm k
    | some v =>
        have haccept := hgiven k v hv
        exact Or.inr ⟨(Key.kindName_iff_of_accept haccept).2 (hkinds k v hv),
          Setting.passes_of_accept haccept⟩

/-- The asks of a document decide whether it is lawful, and the settings do not. -/
theorem Manager.lawful_iff {m : Manager} (hm : m.store.WellTyped)
    (entries : List (Value × Value)) :
    m.Lawful entries ↔ Accountable (Ask.ofEntries entries) := by
  have hends := Ask.ensures_forM (Ask.ofEntries entries) m
  rw [← Ask.applyEntries_eq] at hends
  cases hrun : (applyEntries entries).run m with
  | ok u m' =>
      obtain ⟨hmet, hfollows⟩ := hends.of_ok hrun
      have hlawful : m.Lawful entries ↔ m'.store.WellTyped := by
        simp only [Lawful, Ensures, hrun]
      rw [hlawful, hfollows.wellTyped_iff hm]
      constructor
      · intro hkinds
        refine ⟨fun a hfind => ?_, fun _ => hkinds⟩
        have hfault := List.find?_some hfind
        rw [hmet a (List.mem_of_find?_eq_some hfind)] at hfault
        cases hfault
      · exact fun haccountable => haccountable.typed hmet
  | error f m' =>
      obtain ⟨a, hfind, hf⟩ := hends.of_error hrun
      have hlawful : m.Lawful entries ↔ f.isRefusal = true := by
        simp only [Lawful, Ensures, hrun]
      rw [hlawful, Ask.isRefusal_iff hf]
      constructor
      · intro hescapes
        refine ⟨fun b hb => ?_, fun hmet => ?_⟩
        · obtain rfl : a = b := Option.some.inj (hfind.symm.trans hb)
          exact hescapes
        · have hnone := hmet a (List.mem_of_find?_eq_some hfind)
          rw [hf] at hnone
          cases hnone
      · exact fun haccountable => haccountable.refused a hfind

/-! ## What every document leaves -/

/-- Every value that was set passes the check, and every mode that was set is a text. -/
def Store.Checked (s : Store) : Prop :=
  ∀ k, s.stored k = .null ∨ k.setting.check.passes? (s.stored k) = some true ∧
    (k.isLimit = true ∨ ∃ t, s.stored k = .text t)

theorem Key.checked_of_passes {k : Key} {v : Value}
    (h : k.setting.check.passes? v = some true) :
    k.setting.check.passes? v = some true ∧ (k.isLimit = true ∨ ∃ t, v = .text t) := by
  refine ⟨h, ?_⟩
  cases hlimit : k.isLimit with
  | true => exact Or.inl rfl
  | false => exact Or.inr (eq_text_of_passes hlimit h)

theorem Store.WellTyped.checked {s : Store} (h : s.WellTyped) : s.Checked :=
  fun k => (h k).imp_right (fun hsuits => Key.checked_of_passes hsuits.2)

theorem Store.stable_checked : Stable Checked := by
  intro s k v w haccept hs k'
  by_cases heq : k' = k
  · subst heq
    have hstored : (s.put k' w).stored k' = w := if_pos rfl
    rw [hstored]
    exact Or.inr (Key.checked_of_passes (Setting.passes_of_accept haccept))
  · have hstored : (s.put k w).stored k' = s.stored k' := if_neg heq
    rw [hstored]
    exact hs k'

/-- The faults in which a document ends without being refused. -/
def ConfigFault.escapes : List ConfigFault :=
  [.keyNotText, .setting .unorderable, .setting .unprintable]

theorem Ask.refusal_or_escape {a : Ask} {f : ConfigFault} (h : a.fault? = some f) :
    f.isRefusal = true ∨ f ∈ ConfigFault.escapes := by
  cases a with
  | assign k v =>
      cases haccept : k.setting.accept v with
      | ok w =>
          rw [fault?_of_ok haccept] at h
          cases h
      | error e =>
          rw [fault?_of_error haccept] at h
          cases h
          cases e <;> simp [ConfigFault.isRefusal, ConfigFault.escapes]
  | _ =>
      cases h
      simp [ConfigFault.isRefusal, ConfigFault.escapes]

/-- A document is refused as such or leaves well-typed settings exactly if it is accountable.  In
any case, what it leaves passes the checks, and there are three other faults it can end in. -/
theorem lawful_iff_accountable {m : Manager} (hm : m.store.WellTyped)
    (entries : List (Value × Value)) :
    (m.Lawful entries ↔ Accountable (Ask.ofEntries entries)) ∧
      Ensures (Manager.applyEntries entries) m (fun _ m' => m'.store.Checked)
        (fun f _ => f.isRefusal = true ∨ f ∈ ConfigFault.escapes) := by
  have hkeeps := Manager.Keeps.applyEntries Store.stable_checked entries m hm.checked
  have hends := Ask.ensures_forM (Ask.ofEntries entries) m
  rw [← Ask.applyEntries_eq] at hends
  refine ⟨Manager.lawful_iff hm entries, (hkeeps.and hends).mono (fun _ _ h => h.1) ?_⟩
  rintro f _ ⟨-, a, -, hf⟩
  exact Ask.refusal_or_escape hf

namespace Sample

/-- Texts and an integer for limits, and a choice for a mode. -/
def tuned : List (Value × Value) :=
  [(.text "validator", .map [(.text "stack_limit", .text " 0_512 "),
      (.text "subroutine_operand", .text "stack")]),
    (.text "runtime", .map [(.text "max_steps", .int 5000),
      (.text "return_stack_limit", .text "9")])]

/-- The same, and nothing for a mode. -/
def unset : List (Value × Value) :=
  tuned ++ [(.text "observability", .map [(.text "log_level", .null)])]

/-- Nothing for a limit. -/
def unlimited : List (Value × Value) :=
  [(.text "validator", .map [(.text "stack_limit", .null)])]

/-- A truth value for a limit. -/
def flagged : List (Value × Value) :=
  [(.text "runtime", .map [(.text "max_steps", .bool true)])]

theorem accountable_tuned : Accountable (Ask.ofEntries tuned) := by
  have hmet : (Ask.ofEntries tuned).find? (fun a => a.fault?.isSome) = none := by rfl
  constructor
  · intro a hfind
    rw [hmet] at hfind
    cases hfind
  · intro _ k v hv
    cases k <;> cases hv <;> decide

theorem accountable_unset : Accountable (Ask.ofEntries unset) := by
  have hfirst : (Ask.ofEntries unset).find? (fun a => a.fault?.isSome) =
      some (.assign .logLevel .null) := by rfl
  constructor
  · intro a hfind
    obtain rfl := Option.some.inj (hfirst.symm.trans hfind)
    rintro (⟨hlimit, -⟩ | ⟨hprintable, -⟩)
    · cases hlimit
    · simp [Value.isPrintable] at hprintable
  · intro hmet
    cases hmet _ (List.mem_of_find?_eq_some hfirst)

end Sample

theorem lawful_iff_accountable_tuned :
    Store.WellTyped {} ∧ Manager.Lawful {} Sample.tuned ∧ Manager.Lawful {} Sample.unset := by
  have hempty : Store.WellTyped {} := fun _ => Or.inl rfl
  refine ⟨hempty, ?_, ?_⟩
  · rw [(lawful_iff_accountable hempty Sample.tuned).1]
    exact Sample.accountable_tuned
  · rw [(lawful_iff_accountable hempty Sample.unset).1]
    exact Sample.accountable_unset

/-- Nothing for a limit fails to compare with its bounds, and a truth value is within them. -/
theorem limit_without_number :
    ¬ Manager.Lawful {} Sample.unlimited ∧ ¬ Manager.Lawful {} Sample.flagged := by
  constructor
  · intro h
    have hrun : (Manager.applyEntries Sample.unlimited).run {} =
        .error (.setting .unorderable) {} := rfl
    cases h.of_error hrun
  · intro h
    have hrun : (Manager.applyEntries Sample.flagged).run {} =
        .ok () { store := Store.put {} .maxSteps (.bool true) } := rfl
    rcases h.of_ok hrun .maxSteps with hnull | ⟨hkind, -⟩
    · cases hnull
    · revert hkind
      decide

end FlowCheck
