/-!
# Runs of steps

What a step with a state does that may fail, when it is composed of others: one equation for each way
to compose.
-/

namespace Qua

variable {σ ε α β : Type}

theorem bind_run (m : StateT σ (Except ε) α) (f : α → StateT σ (Except ε) β) (s : σ) :
    (m >>= f) s = match m s with
      | .ok (a, s') => f a s'
      | .error e => .error e := by
  cases h : m s <;> simp [bind, StateT.bind, Except.bind, h]

theorem map_run (f : α → β) (m : StateT σ (Except ε) α) (s : σ) :
    (f <$> m) s = match m s with
      | .ok (a, s') => .ok (f a, s')
      | .error e => .error e := by
  rw [map_eq_pure_bind, bind_run]
  rfl

/-- What a composed step that succeeds has done. -/
theorem bind_eq_ok {m : StateT σ (Except ε) α} {f : α → StateT σ (Except ε) β} {s t : σ} :
    (m >>= f) s = .ok (b, t) ↔ ∃ a s', m s = .ok (a, s') ∧ f a s' = .ok (b, t) := by
  rw [bind_run]
  cases m s with
  | error e => simp
  | ok result =>
    constructor
    · exact fun h => ⟨_, _, rfl, h⟩
    · rintro ⟨a, s', ⟨⟩, h⟩
      exact h

theorem map_eq_ok {f : α → β} {m : StateT σ (Except ε) α} {s t : σ} :
    (f <$> m) s = .ok (b, t) ↔ ∃ a, f a = b ∧ m s = .ok (a, t) := by
  rw [map_run]
  cases m s with
  | error e => simp
  | ok result =>
    obtain ⟨a, s'⟩ := result
    simp only [Except.ok.injEq, Prod.mk.injEq]
    constructor
    · rintro ⟨h, rfl⟩
      exact ⟨a, h, rfl, rfl⟩
    · rintro ⟨a', h, rfl, rfl⟩
      exact ⟨h, rfl⟩

theorem pure_eq_ok {a b : α} {s t : σ} :
    (pure a : StateT σ (Except ε) α) s = .ok (b, t) ↔ b = a ∧ t = s := by
  constructor
  · rintro ⟨⟩
    exact ⟨rfl, rfl⟩
  · rintro ⟨rfl, rfl⟩
    rfl

theorem lift_eq_ok {m : Except ε α} {s t : σ} :
    (liftM m : StateT σ (Except ε) α) s = .ok (a, t) ↔ m = .ok a ∧ t = s := by
  cases m with
  | error e => simp [liftM, monadLift, MonadLift.monadLift, StateT.lift, bind, Except.bind]
  | ok b =>
    constructor
    · rintro ⟨⟩
      exact ⟨rfl, rfl⟩
    · rintro ⟨⟨⟩, rfl⟩
      rfl

/-- What a composed computation that succeeds has computed. -/
theorem except_bind_eq_ok {m : Except ε α} {f : α → Except ε β} :
    (m >>= f) = .ok b ↔ ∃ a, m = .ok a ∧ f a = .ok b := by
  cases m with
  | error e => simp [bind, Except.bind]
  | ok a => simp [bind, Except.bind]

theorem except_bind_eq_error {m : Except ε α} {f : α → Except ε β} {e : ε} :
    (m >>= f) = .error e ↔ m = .error e ∨ ∃ a, m = .ok a ∧ f a = .error e := by
  cases m with
  | error e' => simp [bind, Except.bind]
  | ok a => simp [bind, Except.bind]

theorem except_map_eq_ok {f : α → β} {m : Except ε α} :
    f <$> m = .ok b ↔ ∃ a, m = .ok a ∧ f a = b := by
  cases m with
  | error e => simp [Functor.map, Except.map]
  | ok a => simp [Functor.map, Except.map]

/-- What holds of the result for each item holds of all results. -/
theorem except_mapM_forall {f : α → Except ε β} {Q : β → Prop} {as : List α} {bs : List β}
    (h : as.mapM f = .ok bs) (hf : ∀ a ∈ as, ∀ b, f a = .ok b → Q b) : ∀ b ∈ bs, Q b := by
  induction as generalizing bs with
  | nil =>
    obtain rfl := Except.ok.inj h
    exact List.forall_mem_nil Q
  | cons a as ih =>
    rw [List.mapM_cons] at h
    obtain ⟨hfa, hfas⟩ := List.forall_mem_cons.mp hf
    obtain ⟨b, hb, h⟩ := except_bind_eq_ok.mp h
    obtain ⟨rest, hrest, h⟩ := except_bind_eq_ok.mp h
    obtain rfl := Except.ok.inj h
    exact List.forall_mem_cons.mpr ⟨hfa b hb, ih hrest hfas⟩

theorem except_mapM_length {f : α → Except ε β} {as : List α} {bs : List β} (h : as.mapM f = .ok bs) :
    bs.length = as.length := by
  induction as generalizing bs with
  | nil =>
    obtain rfl := Except.ok.inj h
    rfl
  | cons a as ih =>
    rw [List.mapM_cons] at h
    obtain ⟨b, -, h⟩ := except_bind_eq_ok.mp h
    obtain ⟨rest, hrest, h⟩ := except_bind_eq_ok.mp h
    obtain rfl := Except.ok.inj h
    rw [List.length_cons, List.length_cons, ih hrest]

/-- Items that all have results have one each. -/
theorem except_mapM_ok {f : α → Except ε β} {as : List α} {bs : List β} (h : as.mapM f = .ok bs) :
    ∀ a ∈ as, ∃ b, f a = .ok b := by
  induction as generalizing bs with
  | nil => exact List.forall_mem_nil _
  | cons a as ih =>
    rw [List.mapM_cons] at h
    obtain ⟨b, hb, h⟩ := except_bind_eq_ok.mp h
    obtain ⟨rest, hrest, -⟩ := except_bind_eq_ok.mp h
    exact List.forall_mem_cons.mpr ⟨⟨b, hb⟩, ih hrest⟩

/-- Every result of the step has the property. -/
def Gives (P : α → Prop) (m : StateT σ (Except ε) α) : Prop := ∀ ⦃s a t⦄, m s = .ok (a, t) → P a

theorem Gives.pure {P : α → Prop} {a : α} (h : P a) :
    Gives P (Pure.pure a : StateT σ (Except ε) α) := by
  rintro s _ _ ⟨⟩
  exact h

theorem Gives.throw {P : α → Prop} (e : ε) :
    Gives P (MonadExcept.throw e : StateT σ (Except ε) α) := by
  rintro s _ _ ⟨⟩

theorem Gives.bind {P : α → Prop} {Q : β → Prop} {m : StateT σ (Except ε) α}
    {f : α → StateT σ (Except ε) β} (h : Gives P m) (hf : ∀ a, P a → Gives Q (f a)) :
    Gives Q (m >>= f) := by
  intro s b t hb
  obtain ⟨a, s', ha, hb⟩ := bind_eq_ok.mp hb
  exact hf a (h ha) hb

theorem Gives.lift {P : α → Prop} {m : Except ε α} (h : ∀ a, m = .ok a → P a) :
    Gives P (liftM m : StateT σ (Except ε) α) := by
  intro s a t ha
  exact h a (lift_eq_ok.mp ha).1

/-- The first step does not matter. -/
theorem Gives.after {Q : β → Prop} {m : StateT σ (Except ε) α} {f : α → StateT σ (Except ε) β}
    (hf : ∀ a, Gives Q (f a)) : Gives Q (m >>= f) :=
  Gives.bind (P := fun _ => True) (fun _ _ _ _ => trivial) fun a _ => hf a

theorem Gives.map {P : β → Prop} {m : StateT σ (Except ε) α} {f : α → β} (h : ∀ a, P (f a)) :
    Gives P (f <$> m) := by
  rw [map_eq_pure_bind]
  exact .after fun a => .pure (h a)

/-- From states with the first property, the step gives results with the second one, and leaves states with
the first. -/
def Preserves (I : σ → Prop) (P : α → Prop) (m : StateT σ (Except ε) α) : Prop :=
  ∀ ⦃s a t⦄, I s → m s = .ok (a, t) → P a ∧ I t

namespace Preserves

variable {I : σ → Prop} {P : α → Prop} {Q : β → Prop}

theorem pure {a : α} (h : P a) : Preserves I P (Pure.pure a : StateT σ (Except ε) α) := by
  rintro s _ _ hs ⟨⟩
  exact ⟨h, hs⟩

theorem throw (e : ε) : Preserves I P (MonadExcept.throw e : StateT σ (Except ε) α) := by
  rintro s _ _ _ ⟨⟩

theorem bind {m : StateT σ (Except ε) α} {f : α → StateT σ (Except ε) β} (h : Preserves I P m)
    (hf : ∀ a, P a → Preserves I Q (f a)) : Preserves I Q (m >>= f) := by
  intro s b t hs hb
  obtain ⟨a, s', ha, hb⟩ := bind_eq_ok.mp hb
  obtain ⟨hp, hs'⟩ := h hs ha
  exact hf a hp hs' hb

theorem mono {P' : α → Prop} {m : StateT σ (Except ε) α} (h : Preserves I P m) (hp : ∀ a, P a → P' a) :
    Preserves I P' m := by
  intro s a t hs ha
  obtain ⟨hpa, ht⟩ := h hs ha
  exact ⟨hp a hpa, ht⟩

theorem map {m : StateT σ (Except ε) α} {f : α → β} (h : Preserves I P m) (hf : ∀ a, P a → Q (f a)) :
    Preserves I Q (f <$> m) := by
  rw [map_eq_pure_bind]
  exact h.bind fun a ha => .pure (hf a ha)

theorem lift {m : Except ε α} (h : ∀ a, m = .ok a → P a) :
    Preserves I P (liftM m : StateT σ (Except ε) α) := by
  intro s a t hs ha
  obtain ⟨hm, rfl⟩ := lift_eq_ok.mp ha
  exact ⟨h a hm, hs⟩

theorem get_state : Preserves I I (get : StateT σ (Except ε) σ) := by
  rintro s _ _ hs ⟨⟩
  exact ⟨hs, hs⟩

/-- A failure, or else the rest. -/
theorem guarded {c : Prop} [Decidable c] (e : ε) {k : PUnit → StateT σ (Except ε) α}
    (h : Preserves I P (k ())) :
    Preserves I P (if c then (MonadExcept.throw e : StateT σ (Except ε) PUnit) >>= k else k ()) := by
  split
  · rintro _ _ _ _ ⟨⟩
  · exact h

theorem set_state {s : σ} (h : I s) : Preserves I (fun _ => True) (set s : StateT σ (Except ε) PUnit) := by
  rintro _ _ _ _ ⟨⟩
  exact ⟨trivial, h⟩

theorem modify_state {f : σ → σ} (h : ∀ s, I s → I (f s)) :
    Preserves I (fun _ => True) (modify f : StateT σ (Except ε) PUnit) := by
  rintro s _ _ hs ⟨⟩
  exact ⟨trivial, h s hs⟩

theorem mapM {f : α → StateT σ (Except ε) β} {as : List α} (h : ∀ a ∈ as, Preserves I Q (f a)) :
    Preserves I (fun bs => ∀ b ∈ bs, Q b) (as.mapM f) := by
  induction as with
  | nil => simpa using pure (I := I) (ε := ε) (P := fun bs : List β => ∀ b ∈ bs, Q b) (by simp)
  | cons a as ih =>
    obtain ⟨ha, has⟩ := List.forall_mem_cons.mp h
    rw [List.mapM_cons]
    exact ha.bind fun b hb => (ih has).bind fun bs hbs => .pure (List.forall_mem_cons.mpr ⟨hb, hbs⟩)

theorem mapM_option {f : α → StateT σ (Except ε) β} {a : Option α} (h : ∀ x ∈ a, Preserves I Q (f x)) :
    Preserves I (fun b => ∀ y ∈ b, Q y) (a.mapM f) := by
  cases a with
  | none => exact pure (by simp)
  | some x =>
    refine (h x rfl).map fun y hy => ?_
    rintro _ ⟨⟩
    exact hy

theorem forM {f : α → StateT σ (Except ε) PUnit} {as : List α}
    (h : ∀ a ∈ as, Preserves I (fun _ => True) (f a)) : Preserves I (fun _ => True) (as.forM f) := by
  induction as with
  | nil => exact pure trivial
  | cons a as ih =>
    obtain ⟨ha, has⟩ := List.forall_mem_cons.mp h
    exact ha.bind fun _ _ => ih has

end Preserves

@[simp] theorem pure_run (a : α) (s : σ) : (pure a : StateT σ (Except ε) α) s = .ok (a, s) := rfl
@[simp] theorem get_run (s : σ) : (get : StateT σ (Except ε) σ) s = .ok (s, s) := rfl
@[simp] theorem set_run (s s' : σ) : (set s' : StateT σ (Except ε) PUnit) s = .ok (⟨⟩, s') := rfl
@[simp] theorem modify_run (f : σ → σ) (s : σ) :
    (modify f : StateT σ (Except ε) PUnit) s = .ok (⟨⟩, f s) := rfl
@[simp] theorem throw_run (e : ε) (s : σ) :
    (throw e : StateT σ (Except ε) α) s = .error e := rfl

end Qua
