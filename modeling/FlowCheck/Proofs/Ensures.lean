/-!
# What a stateful computation guarantees

`Ensures m s post bad` says how `m` ends when it starts in the state `s`: with a value and a state
that satisfy `post`, or with an error and a state that satisfy `bad`.  The traversal and the machine
are both computations of this kind, and a failing computation keeps the state that it reached.

Every rule below is named for the construct it takes apart.
-/

namespace FlowCheck

/-- A computation, started in a state, ends well with `post` or badly with `bad`. -/
def Ensures {ε σ α : Type} (m : EStateM ε σ α) (s : σ) (post : α → σ → Prop)
    (bad : ε → σ → Prop) : Prop :=
  match m.run s with
  | .ok a s' => post a s'
  | .error e s' => bad e s'

namespace Ensures

variable {ε σ α β : Type} {m : EStateM ε σ α} {s : σ} {post post' : α → σ → Prop}
  {bad bad' : ε → σ → Prop}

theorem of_ok (h : Ensures m s post bad) {a : α} {s' : σ} (hrun : m.run s = .ok a s') :
    post a s' := by
  simpa only [Ensures, hrun] using h

theorem of_error (h : Ensures m s post bad) {e : ε} {s' : σ} (hrun : m.run s = .error e s') :
    bad e s' := by
  simpa only [Ensures, hrun] using h

theorem mono (h : Ensures m s post bad) (hpost : ∀ a s', post a s' → post' a s')
    (hbad : ∀ e s', bad e s' → bad' e s') : Ensures m s post' bad' := by
  unfold Ensures at h ⊢
  cases hrun : m.run s with
  | ok a s' =>
      rw [hrun] at h
      exact hpost a s' h
  | error e s' =>
      rw [hrun] at h
      exact hbad e s' h

/-- Two guarantees about one computation hold of the same end. -/
theorem and (h : Ensures m s post bad) (h' : Ensures m s post' bad') :
    Ensures m s (fun a s' => post a s' ∧ post' a s') (fun e s' => bad e s' ∧ bad' e s') := by
  unfold Ensures at h h' ⊢
  cases hrun : m.run s with
  | ok a s' =>
      rw [hrun] at h h'
      exact ⟨h, h'⟩
  | error e s' =>
      rw [hrun] at h h'
      exact ⟨h, h'⟩

theorem of_pure {a : α} (h : post a s) : Ensures (pure a : EStateM ε σ α) s post bad := h

theorem of_throw {e : ε} (h : bad e s) : Ensures (throw e : EStateM ε σ α) s post bad := h

theorem of_get {post : σ → σ → Prop} (h : post s s) :
    Ensures (get : EStateM ε σ σ) s post bad := h

theorem of_set {post : PUnit → σ → Prop} {s' : σ} (h : post ⟨⟩ s') :
    Ensures (set s' : EStateM ε σ PUnit) s post bad := h

theorem of_modify {post : PUnit → σ → Prop} {g : σ → σ} (h : post ⟨⟩ (g s)) :
    Ensures (modify g : EStateM ε σ PUnit) s post bad := h

theorem of_bind {k : α → EStateM ε σ β} {post : β → σ → Prop}
    (h : Ensures m s (fun a s' => Ensures (k a) s' post bad) bad) :
    Ensures (m >>= k) s post bad := by
  unfold Ensures at h ⊢
  rw [EStateM.run_bind]
  cases hrun : m.run s with
  | ok a s' =>
      rw [hrun] at h
      exact h
  | error e s' =>
      rw [hrun] at h
      exact h

/-- A loop over a list, with a property of the state and of the elements still to come. -/
theorem of_forM_rest {g : β → EStateM ε σ PUnit} {P : List β → σ → Prop} {l : List β}
    (hstep : ∀ b rest s, P (b :: rest) s → Ensures (g b) s (fun _ s' => P rest s') bad)
    (h : P l s) : Ensures (l.forM g) s (fun _ s' => P [] s') bad := by
  induction l generalizing s with
  | nil => exact h
  | cons b rest ih =>
      change Ensures (g b >>= fun _ => rest.forM g) s _ _
      exact of_bind ((hstep b rest s h).mono (fun _ _ hs' => ih hs') (fun _ _ h => h))

/-- A property that every element's computation keeps is kept by all of them in turn. -/
theorem of_forM {g : β → EStateM ε σ PUnit} {P : σ → Prop} {l : List β}
    (hstep : ∀ b ∈ l, ∀ s, P s → Ensures (g b) s (fun _ s' => P s') bad) (h : P s) :
    Ensures (l.forM g) s (fun _ s' => P s') bad := by
  refine (of_forM_rest (P := fun rest s => (∀ b ∈ rest, b ∈ l) ∧ P s) ?_
    ⟨fun _ hb => hb, h⟩).mono (fun _ _ h => h.2) (fun _ _ h => h)
  rintro b rest s ⟨hmem, hs⟩
  refine (hstep b (hmem b (List.mem_cons_self ..)) s hs).mono ?_ (fun _ _ h => h)
  exact fun _ _ hs' => ⟨fun c hc => hmem c (List.mem_cons_of_mem _ hc), hs'⟩

/-- Each element's computation achieves something that the later ones do not undo. -/
theorem of_forM_each {g : β → EStateM ε σ PUnit} {P : σ → Prop} {Q : β → σ → Prop} {l : List β}
    (hstep : ∀ b ∈ l, ∀ s, P s →
      Ensures (g b) s (fun _ s' => P s' ∧ Q b s' ∧ ∀ c, Q c s → Q c s') bad) (h : P s) :
    Ensures (l.forM g) s (fun _ s' => P s' ∧ ∀ b ∈ l, Q b s') bad := by
  refine (of_forM_rest (P := fun rest s => (∀ b ∈ rest, b ∈ l) ∧ P s ∧ ∀ b ∈ l, b ∈ rest ∨ Q b s) ?_
    ⟨fun _ hb => hb, h, fun _ hb => Or.inl hb⟩).mono ?_ (fun _ _ h => h)
  · rintro b rest s ⟨hmem, hs, hdone⟩
    refine (hstep b (hmem b (List.mem_cons_self ..)) s hs).mono ?_ (fun _ _ h => h)
    rintro _ s' ⟨hs', hb, hkeep⟩
    refine ⟨fun c hc => hmem c (List.mem_cons_of_mem _ hc), hs', fun c hc => ?_⟩
    rcases hdone c hc with hrest | hQ
    · rcases List.mem_cons.1 hrest with rfl | hrest
      · exact Or.inr hb
      · exact Or.inl hrest
    · exact Or.inr (hkeep c hQ)
  · rintro _ s' ⟨-, hs', hdone⟩
    exact ⟨hs', fun b hb => (hdone b hb).resolve_left (by simp)⟩

end Ensures

end FlowCheck
