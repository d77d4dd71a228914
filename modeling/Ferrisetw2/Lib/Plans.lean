import Ferrisetw2.Lib.Calls

/-!
# Plans

A program that makes its calls one after the other, and gives up at the first answer it cannot use,
has a plan: what it asks for, and what it is answered, when nothing goes wrong. What it asks for at
a place can be an error from the outset, and then there is nothing to call.

Which plan is followed can depend on the answers, and what the program returns on both. A program
that fails has gone through the first exchanges of a plan, up to the one that went wrong. What it
calls after that is its cleanup, which depends on what it has gone through.

## Main definitions

* `Calls.requests` — what is asked for in a list of exchanges
* `Calls.GivesUp` — a plan is left, where something goes wrong
* `Calls.Follows` — a program follows its plan

## Main results

* `Follows.call_bind`, `Follows.bind`, `Follows.forEach`, `Follows.onError` and so on — the rules
  for programs put together
-/

namespace Calls

variable {Q A σ ε ε' α β γ : Type*}

/-- What is asked for. -/
def requests (l : List (Except ε (Q × A))) : List (Except ε Q) := l.map (Except.map Prod.fst)

theorem requests_append (l l' : List (Except ε (Q × A))) :
    requests (l ++ l') = requests l ++ requests l' := List.map_append

/-- Exchanges are not errors. -/
theorem map_mapError_ok (k : ε → ε') (l : List (Q × A)) :
    (l.map Except.ok).map (Except.mapError k) = l.map .ok := by
  rw [List.map_map]
  rfl

theorem requests_map_mapError (k : ε → ε') (l : List (Except ε (Q × A))) :
    requests (l.map (Except.mapError k)) = (requests l).map (Except.mapError k) := by
  rw [requests, requests, List.map_map, List.map_map]
  refine List.map_congr_left fun x _ => ?_
  cases x <;> rfl

theorem ok_mem_of_map_mapError {k : ε → ε'} {l : List (Except ε (Q × A))} {x : Q × A}
    (h : .ok x ∈ l.map (Except.mapError k)) : .ok x ∈ l := by
  obtain ⟨y, hy, hx⟩ := List.mem_map.mp h
  cases y with
  | error e => cases hx
  | ok y => exact Except.ok.inj hx ▸ hy

theorem ok_mem_requests {l : List (Except ε (Q × A))} {x : Q × A} (h : .ok x ∈ l) :
    .ok x.1 ∈ requests l := List.mem_map.mpr ⟨_, h, rfl⟩

variable (accepts : Q → A → Prop)

/-- A plan is left after these exchanges, with this error: the last answer was not acceptable, or
the next thing to ask for is the error. All answers before that were acceptable. -/
inductive GivesUp (whole : List (Except ε (Q × A))) : ε → List (Q × A) → Prop where
  | refused {e done q ans ans' rest} : whole = done.map .ok ++ .ok (q, ans) :: rest →
    (∀ x ∈ done, accepts x.1 x.2) → ¬ accepts q ans' → GivesUp whole e (done ++ [(q, ans')])
  | error {e done rest} : whole = done.map .ok ++ .error e :: rest →
    (∀ x ∈ done, accepts x.1 x.2) → GivesUp whole e done

/-- A program that returns `a` has gone through the exchanges of a plan for `a`, and each answer was
acceptable. One that fails has left a plan, and then made the calls of its cleanup. -/
def Follows (plan : α → List (Except ε (Q × A)) → Prop) (cleanup : List (Q × A) → List Q)
    (x : Prog Q A σ ε α) : Prop :=
  ∀ w, ∃ new, (x w).2.calls = w.calls ++ new ∧
    (∀ a, (x w).1 = .ok a → (∀ e ∈ new, accepts e.1 e.2) ∧ plan a (new.map .ok)) ∧
    ∀ e, (x w).1 = .error e → ∃ done rest a whole, new = done ++ rest ∧ plan a whole ∧
      GivesUp accepts whole e done ∧ rest.map Prod.fst = cleanup done

/-- A program that fails, without a call. -/
def Refuses (x : Prog Q A σ ε α) : Prop :=
  ∀ w, (∃ e, (x w).1 = .error e) ∧ (x w).2.calls = w.calls

/-- Nothing is called any more. -/
def noCleanup (_ : List (Q × A)) : List Q := []

variable {accepts}

/-! ### Leaving a plan -/

section GivesUp

variable {whole : List (Except ε (Q × A))} {e : ε} {done : List (Q × A)}

/-- What was called is what was to be called. -/
theorem GivesUp.ok_mem_requests {x : Q × A} (h : GivesUp accepts whole e done) (hx : x ∈ done) :
    .ok x.1 ∈ requests whole := by
  have hmem : ∀ {done' : List (Q × A)} {rest}, whole = done'.map .ok ++ rest → x ∈ done' →
      .ok x.1 ∈ requests whole := by
    rintro done' rest rfl hx
    exact Calls.ok_mem_requests (List.mem_append_left _ (List.mem_map_of_mem hx))
  cases h with
  | refused hwhole _ _ =>
    rcases List.mem_append.mp hx with hx | hx
    · exact hmem hwhole hx
    · rw [List.mem_singleton.mp hx, hwhole, requests_append]
      exact List.mem_append_right _ List.mem_cons_self
  | error hwhole _ => exact hmem hwhole hx

/-- A plan with more behind it. -/
theorem GivesUp.append (h : GivesUp accepts whole e done) (l : List (Except ε (Q × A))) :
    GivesUp accepts (whole ++ l) e done := by
  cases h with
  | refused hwhole hacc hrefused =>
    exact .refused (by rw [hwhole, List.append_assoc, List.cons_append]) hacc hrefused
  | error hwhole hacc =>
    exact .error (by rw [hwhole, List.append_assoc, List.cons_append]) hacc

/-- A plan with acceptable exchanges before it. -/
theorem GivesUp.prepend (h : GivesUp accepts whole e done) {l : List (Q × A)}
    (hl : ∀ x ∈ l, accepts x.1 x.2) : GivesUp accepts (l.map .ok ++ whole) e (l ++ done) := by
  have hall : ∀ {done' : List (Q × A)}, (∀ x ∈ done', accepts x.1 x.2) →
      ∀ x ∈ l ++ done', accepts x.1 x.2 :=
    fun hdone x hx => (List.mem_append.mp hx).elim (hl x) (hdone x)
  cases h with
  | refused hwhole hacc hrefused =>
    rw [← List.append_assoc]
    exact .refused (by rw [hwhole, List.map_append, List.append_assoc]) (hall hacc) hrefused
  | error hwhole hacc =>
    exact .error (by rw [hwhole, List.map_append, List.append_assoc]) (hall hacc)

/-- A plan of one call can be left after that alone. -/
theorem GivesUp.of_singleton {q : Q} {ans : A} (h : GivesUp accepts [.ok (q, ans)] e done) :
    ∃ ans', ¬ accepts q ans' ∧ done = [(q, ans')] := by
  cases h with
  | @refused done' _ _ ans' _ hwhole _ hrefused =>
    cases done' with
    | nil =>
      obtain ⟨⟨⟩, -⟩ := List.cons.inj hwhole
      exact ⟨ans', hrefused, rfl⟩
    | cons x done' =>
      obtain ⟨-, hnil⟩ := List.cons.inj hwhole
      exact absurd hnil.symm (List.append_ne_nil_of_right_ne_nil _ (List.cons_ne_nil _ _))
  | error hwhole _ =>
    cases done with
    | nil =>
      obtain ⟨⟨⟩, -⟩ := List.cons.inj hwhole
    | cons x done =>
      obtain ⟨-, hnil⟩ := List.cons.inj hwhole
      exact absurd hnil.symm (List.append_ne_nil_of_right_ne_nil _ (List.cons_ne_nil _ _))

/-- Errors of another type. -/
theorem GivesUp.mapError (h : GivesUp accepts whole e done) (k : ε → ε') :
    GivesUp accepts (whole.map (Except.mapError k)) (k e) done := by
  cases h with
  | refused hwhole hacc hrefused =>
    exact .refused (by rw [hwhole, List.map_append, map_mapError_ok]; rfl) hacc hrefused
  | error hwhole hacc =>
    exact .error (by rw [hwhole, List.map_append, map_mapError_ok]; rfl) hacc

end GivesUp

/-! ### Following one -/

variable {plan : α → List (Except ε (Q × A)) → Prop} {cleanup : List (Q × A) → List Q}
  {x : Prog Q A σ ε α}

/-- There is a plan to follow. -/
theorem Follows.exists_plan (h : Follows accepts plan cleanup x) (w : World Q A σ) :
    ∃ a l, plan a l := by
  obtain ⟨new, -, hok, herr⟩ := h w
  cases hr : (x w).1 with
  | ok a => exact ⟨a, _, (hok a hr).2⟩
  | error e =>
    obtain ⟨-, -, a, whole, -, ha, -⟩ := herr e hr
    exact ⟨a, whole, ha⟩

theorem Follows.mono {plan' : α → List (Except ε (Q × A)) → Prop}
    (h : Follows accepts plan cleanup x) (hplan : ∀ a l, plan a l → plan' a l) :
    Follows accepts plan' cleanup x := by
  intro w
  obtain ⟨new, hnew, hok, herr⟩ := h w
  refine ⟨new, hnew, fun a ha => ⟨(hok a ha).1, hplan a _ (hok a ha).2⟩, fun e he => ?_⟩
  obtain ⟨done, rest, a, whole, hdone, ha, hends⟩ := herr e he
  exact ⟨done, rest, a, whole, hdone, hplan a whole ha, hends⟩

/-- Two cleanups that are the same where the plan can be left. -/
theorem Follows.cleanup_congr {cleanup' : List (Q × A) → List Q}
    (h : Follows accepts plan cleanup x)
    (hcleanup : ∀ a whole e done, plan a whole → GivesUp accepts whole e done →
      cleanup done = cleanup' done) : Follows accepts plan cleanup' x := by
  intro w
  obtain ⟨new, hnew, hok, herr⟩ := h w
  refine ⟨new, hnew, hok, fun e he => ?_⟩
  obtain ⟨done, rest, a, whole, hdone, ha, hends, hrest⟩ := herr e he
  exact ⟨done, rest, a, whole, hdone, ha, hends, hrest.trans (hcleanup a whole e done ha hends)⟩

theorem Follows.pure {a : α} (h : plan a []) :
    Follows accepts plan cleanup (Calls.pure a : Prog Q A σ ε α) := by
  intro w
  refine ⟨[], (List.append_nil w.calls).symm, fun b hb => ⟨fun _ h => (by cases h), ?_⟩,
    fun _ h => by cases h⟩
  obtain rfl := Except.ok.inj hb
  exact h

/-- An error before anything is called. -/
theorem Follows.error {e : ε} {a : α} {l : List (Except ε (Q × A))}
    (hplan : plan a (.error e :: l)) :
    Follows accepts plan noCleanup (Calls.error e : Prog Q A σ ε α) := by
  intro w
  refine ⟨[], (List.append_nil w.calls).symm, fun _ h => (by cases h), fun e' he => ?_⟩
  obtain rfl := Except.error.inj he
  exact ⟨[], [], a, _, rfl, hplan, .error rfl fun _ h => (by cases h), rfl⟩

/-- **A call.** What follows either goes on with the plan, after an acceptable answer, or fails
without another call. -/
theorem Follows.call_bind {env : Env Q A} {q : Q} {f : A → Prog Q A σ ε α}
    (plan' : A → α → List (Except ε (Q × A)) → Prop)
    (hplan : ∀ ans a l, plan' ans a l → plan a (.ok (q, ans) :: l))
    (hex : ∃ ans a l, plan' ans a l)
    (h : ∀ ans, accepts q ans ∧ Follows accepts (plan' ans) noCleanup (f ans) ∨
      ¬ accepts q ans ∧ Refuses (f ans)) :
    Follows accepts plan noCleanup (Calls.bind (call env q) f) := by
  intro w
  rw [bind_call]
  rcases h (env w.calls q) with ⟨hacc, hf⟩ | ⟨hrefused, hf⟩
  · obtain ⟨new, hnew, hok, herr⟩ := hf { w with calls := w.calls ++ [(q, env w.calls q)] }
    refine ⟨(q, env w.calls q) :: new, ?_, fun a ha => ⟨?_, ?_⟩, fun e he => ?_⟩
    · rw [hnew, List.append_assoc]
      rfl
    · exact List.forall_mem_cons.mpr ⟨hacc, (hok a ha).1⟩
    · exact hplan _ a _ (hok a ha).2
    · obtain ⟨done, rest, a, whole, rfl, ha, hends, hrest⟩ := herr e he
      have hfirst : ∀ x ∈ [(q, env w.calls q)], accepts x.1 x.2 :=
        List.forall_mem_singleton.mpr hacc
      exact ⟨_ :: done, rest, a, _, rfl, hplan _ a whole ha, hends.prepend hfirst, hrest⟩
  · obtain ⟨⟨e, he⟩, hcalls⟩ := hf { w with calls := w.calls ++ [(q, env w.calls q)] }
    obtain ⟨ans, a, l, hl⟩ := hex
    refine ⟨[(q, env w.calls q)], hcalls, fun b hb => ?_, fun _ _ => ?_⟩
    · rw [he] at hb
      cases hb
    · exact ⟨[] ++ [(q, env w.calls q)], [], a, .ok (q, ans) :: l, (List.append_nil _).symm,
        hplan ans a l hl, .refused rfl (fun _ h => by cases h) hrefused, rfl⟩

/-- A change of the state calls nothing. -/
theorem Follows.modify_bind {g : σ → β × σ} {f : β → Prog Q A σ ε α}
    (h : ∀ b, Follows accepts plan cleanup (f b)) :
    Follows accepts plan cleanup (bind (modify g) f) := fun w =>
  h (g w.state).1 { w with state := (g w.state).2 }

/-- **One program after the other**: the plans are put one behind the other. What the second cleans
up after includes what the first has gone through. -/
theorem Follows.bind {plan' : α → β → List (Except ε (Q × A)) → Prop} {f : α → Prog Q A σ ε β}
    (hx : Follows accepts plan cleanup x) (hf : ∀ a l, plan a l →
      ∃ cleanup', Follows accepts (plan' a) cleanup' (f a) ∧
        ∀ l', l = l'.map .ok → ∀ done, cleanup' done = cleanup (l' ++ done)) :
    Follows accepts (fun b l => ∃ a l₁ l₂, plan a l₁ ∧ plan' a b l₂ ∧ l = l₁ ++ l₂) cleanup
      (Calls.bind x f) := by
  intro w
  obtain ⟨new, hnew, hok, herr⟩ := hx w
  rcases hr : x w with ⟨e | a, w'⟩
  · rw [bind_of_error hr]
    rw [hr] at hnew herr
    refine ⟨new, hnew, fun _ h => (by cases h), fun e' he => ?_⟩
    obtain rfl := Except.error.inj he
    obtain ⟨done, rest, a, whole, rfl, ha, hends, hrest⟩ := herr e rfl
    obtain ⟨cleanup', hf', -⟩ := hf a whole ha
    obtain ⟨b, l, hb⟩ := hf'.exists_plan w
    exact ⟨done, rest, b, whole ++ l, rfl, ⟨a, whole, l, ha, hb, rfl⟩, hends.append l, hrest⟩
  · rw [bind_of_ok hr]
    rw [hr] at hnew hok
    obtain ⟨hacc, hplan⟩ := hok a rfl
    obtain ⟨cleanup', hf', hcleanup⟩ := hf a _ hplan
    obtain ⟨new', hnew', hok', herr'⟩ := hf' w'
    refine ⟨new ++ new', ?_, fun b hb => ⟨?_, ?_⟩, fun e he => ?_⟩
    · rw [hnew', show w'.calls = w.calls ++ new from hnew, List.append_assoc]
    · exact fun e he => (List.mem_append.mp he).elim (hacc e) ((hok' b hb).1 e)
    · exact ⟨a, _, _, hplan, (hok' b hb).2, List.map_append⟩
    · obtain ⟨done, rest, b, whole, rfl, hb, hends, hrest⟩ := herr' e he
      exact ⟨new ++ done, rest, b, new.map .ok ++ whole, (List.append_assoc ..).symm,
        ⟨a, _, whole, hplan, hb, rfl⟩, hends.prepend hacc, hrest.trans (hcleanup new rfl done)⟩

/-- Two programs that do not clean up. -/
theorem Follows.bind_noCleanup {plan' : α → β → List (Except ε (Q × A)) → Prop}
    {f : α → Prog Q A σ ε β} (hx : Follows accepts plan noCleanup x)
    (hf : ∀ a l, plan a l → Follows accepts (plan' a) noCleanup (f a)) :
    Follows accepts (fun b l => ∃ a l₁ l₂, plan a l₁ ∧ plan' a b l₂ ∧ l = l₁ ++ l₂) noCleanup
      (Calls.bind x f) :=
  hx.bind fun a l ha => ⟨noCleanup, hf a l ha, fun _ _ _ => rfl⟩

/-- **Each of a list in turn.** -/
theorem Follows.forEach {f : β → Prog Q A σ ε Unit} {asks : β → List (Except ε Q)}
    (hf : ∀ b, Follows accepts (fun _ l => requests l = asks b) noCleanup (f b)) (bs : List β) :
    Follows accepts (fun _ l => requests l = bs.flatMap asks) noCleanup (Calls.forEach f bs) := by
  induction bs with
  | nil => exact Follows.pure rfl
  | cons b bs ih =>
    refine ((hf b).bind_noCleanup fun _ _ _ => ih).mono ?_
    rintro _ l ⟨_, l₁, l₂, h₁, h₂, rfl⟩
    rw [requests_append, h₁, h₂]
    rfl

/-- What is made of a result calls nothing. -/
theorem Follows.mapResult {g : Except ε α → Except ε' β} {h : α → β} {k : ε → ε'}
    {plan' : β → List (Except ε' (Q × A)) → Prop} (hok : ∀ a, g (.ok a) = .ok (h a))
    (herr : ∀ e, g (.error e) = .error (k e))
    (hplan : ∀ a l, plan a l → plan' (h a) (l.map (Except.mapError k)))
    (hx : Follows accepts plan cleanup x) :
    Follows accepts plan' cleanup (Calls.mapResult g x) := by
  intro w
  obtain ⟨new, hnew, hreturns, hfails⟩ := hx w
  refine ⟨new, hnew, fun b hb => ?_, fun e he => ?_⟩
  · rw [Calls.mapResult] at hb
    cases hr : (x w).1 with
    | error e =>
      rw [hr, herr] at hb
      cases hb
    | ok a =>
      rw [hr, hok] at hb
      obtain rfl := Except.ok.inj hb
      rw [← map_mapError_ok k new]
      exact ⟨(hreturns a hr).1, hplan a _ (hreturns a hr).2⟩
  · rw [Calls.mapResult] at he
    cases hr : (x w).1 with
    | error e₀ =>
      rw [hr, herr] at he
      obtain rfl := Except.error.inj he
      obtain ⟨done, rest, a, whole, hdone, ha, hends, hrest⟩ := hfails e₀ hr
      exact ⟨done, rest, h a, _, hdone, hplan a whole ha, hends.mapError k, hrest⟩
    | ok a =>
      rw [hr, hok] at he
      cases he

/-- **A program that is cleaned up after.** -/
theorem Follows.onError {y : Prog Q A σ ε' γ} (hx : Follows accepts plan noCleanup x)
    (hy : ∀ w, ∃ new, (y w).2.calls = w.calls ++ new ∧ ∀ a whole e done, plan a whole →
      GivesUp accepts whole e done → new.map Prod.fst = cleanup done) :
    Follows accepts plan cleanup (Calls.onError x y) := by
  intro w
  obtain ⟨new, hnew, hok, herr⟩ := hx w
  rcases hr : x w with ⟨e | a, w'⟩
  · rw [hr] at hnew herr
    obtain ⟨done, rest, a, whole, rfl, ha, hends, hrest⟩ := herr e rfl
    obtain rfl : rest = [] := List.map_eq_nil_iff.mp hrest
    obtain ⟨new', hnew', hcleanup⟩ := hy w'
    rw [Calls.onError, hr]
    refine ⟨done ++ new', ?_, fun _ h => (by cases h), fun e' he => ?_⟩
    · rw [hnew', show w'.calls = w.calls ++ (done ++ []) from hnew, List.append_nil,
        List.append_assoc]
    · obtain rfl := Except.error.inj he
      exact ⟨done, new', a, whole, rfl, ha, hends, hcleanup a whole e done ha hends⟩
  · rw [hr] at hnew hok
    rw [Calls.onError, hr]
    exact ⟨new, hnew, hok, fun _ h => by cases h⟩

end Calls
