/-!
# Results and failures

What can be said of the parts of a computation that may fail, once it has ended with a result or
with a failure.

## What is here

* `bind_eq_ok`, `bind_eq_error` — one part after the other.
* `exists_eq_ok_iff`, `bind_eq_error_iff` — parts that fail just if there is a fault.
* `mapError_eq_ok`, `mapError_eq_error` — a part whose failures are put in other words.
* `exists_of_mem_mapM` — the same part for each member of a list.
* `ReportsFirst` — a computation that goes through places and stops at the first that is not known;
  `reportsFirst_iff` says this by the fault that it finds, and `ReportsFirst.map` and
  `ReportsFirst.mapError` are about what is made of the result and of the report.
-/

set_option autoImplicit false

namespace TreeRewrite

variable {ε δ α β : Type}

/-- What runs one after the other succeeds if both do. -/
theorem bind_eq_ok {x : Except ε α} {f : α → Except ε β} {b : β} :
    x >>= f = .ok b ↔ ∃ a, x = .ok a ∧ f a = .ok b := by
  cases x with
  | error e => exact ⟨fun h => (nomatch h), fun ⟨_, h, _⟩ => (nomatch h)⟩
  | ok a => exact ⟨fun h => ⟨a, rfl, h⟩, fun ⟨_, h, h'⟩ => Except.ok.inj h ▸ h'⟩

/-- What runs one after the other fails if the first part does, or the second after it. -/
theorem bind_eq_error {x : Except ε α} {f : α → Except ε β} {e : ε} :
    x >>= f = .error e ↔ x = .error e ∨ ∃ a, x = .ok a ∧ f a = .error e := by
  cases x <;> simp [bind, Except.bind]

/-- What fails just with a fault succeeds if there is none. -/
theorem exists_eq_ok_iff {x : Except ε α} {fault? : Option ε}
    (h : ∀ e, x = .error e ↔ fault? = some e) : (∃ a, x = .ok a) ↔ fault? = none := by
  cases x with
  | ok a =>
    refine ⟨fun _ => Option.eq_none_iff_forall_ne_some.2 fun e he => ?_, fun _ => ⟨a, rfl⟩⟩
    exact nomatch (h e).2 he
  | error e => simp [(h e).1 rfl]

/-- Of two parts that fail just with a fault, the first fault is that of both together. -/
theorem bind_eq_error_iff {x : Except ε α} {f : α → Except ε β} {first? second? : Option ε}
    (first : ∀ e, x = .error e ↔ first? = some e)
    (second : ∀ a, x = .ok a → ∀ e, f a = .error e ↔ second? = some e) (e : ε) :
    x >>= f = .error e ↔ first?.or second? = some e := by
  cases x with
  | ok a =>
    rw [(exists_eq_ok_iff first).1 ⟨a, rfl⟩]
    exact second a rfl e
  | error cause =>
    rw [(first cause).1 rfl]
    exact ⟨fun h => congrArg some (Except.error.inj h),
      fun h => congrArg Except.error (Option.some.inj h)⟩

theorem mapError_eq_ok {f : ε → δ} {x : Except ε α} {a : α} :
    x.mapError f = .ok a ↔ x = .ok a := by
  cases x with
  | error e => exact ⟨nofun, nofun⟩
  | ok b => exact ⟨fun h => congrArg _ (Except.ok.inj h), fun h => congrArg _ (Except.ok.inj h)⟩

theorem mapError_eq_error {f : ε → δ} {x : Except ε α} {e : δ} :
    x.mapError f = .error e ↔ ∃ cause, x = .error cause ∧ f cause = e := by
  cases x with
  | error cause =>
    refine ⟨fun h => ⟨cause, rfl, Except.error.inj h⟩, ?_⟩
    rintro ⟨_, ⟨⟩, rfl⟩
    rfl
  | ok b => exact ⟨nofun, nofun⟩

/-- What comes of a list comes of its members. -/
theorem exists_of_mem_mapM {f : α → Except ε β} {xs : List α} {ys : List β}
    (h : xs.mapM f = .ok ys) : ∀ y ∈ ys, ∃ x ∈ xs, f x = .ok y := by
  induction xs generalizing ys with
  | nil =>
    cases h
    exact List.forall_mem_nil _
  | cons x rest ih =>
    rw [List.mapM_cons] at h
    obtain ⟨y, here, h⟩ := bind_eq_ok.1 h
    obtain ⟨later, run, ⟨⟩⟩ := bind_eq_ok.1 h
    refine List.forall_mem_cons.2 ⟨⟨x, List.mem_cons_self, here⟩, fun z hz => ?_⟩
    obtain ⟨u, hu, eq⟩ := ih run z hz
    exact ⟨u, List.mem_cons_of_mem _ hu, eq⟩

/-! ## First things that are not known -/

/-- Does a computation succeed just if all of some places are known, and does it otherwise fail with
the report of the first that is not? -/
structure ReportsFirst {ι : Type} (places : List ι) (known : ι → Bool) (report : ι → ε)
    (result : Except ε α) : Prop where
  ok_iff : (∃ a, result = .ok a) ↔ ∀ place ∈ places, known place = true
  error_iff (e : ε) : result = .error e ↔ ∃ before place after, places = before ++ place :: after
    ∧ (∀ earlier ∈ before, known earlier = true) ∧ known place = false ∧ e = report place

/-- The report of a place that is not known. -/
def faultOf {ι : Type} (known : ι → Bool) (report : ι → ε) (place : ι) : Option ε :=
  if known place then none else some (report place)

theorem reportsFirst_iff {ι : Type} {places : List ι} {known : ι → Bool} {report : ι → ε}
    {result : Except ε α} : ReportsFirst places known report result
      ↔ ∀ e, result = .error e ↔ places.findSome? (faultOf known report) = some e := by
  have none_iff (place : ι) : faultOf known report place = none ↔ known place = true := by
    simp [faultOf]
  have some_iff (place : ι) (e : ε) :
      faultOf known report place = some e ↔ known place = false ∧ e = report place := by
    cases h : known place <;> simp [faultOf, h, eq_comm (a := e)]
  have found (e : ε) : places.findSome? (faultOf known report) = some e
      ↔ ∃ before place after, places = before ++ place :: after
        ∧ (∀ earlier ∈ before, known earlier = true) ∧ known place = false ∧ e = report place := by
    simp only [List.findSome?_eq_some_iff, none_iff, some_iff, and_comm]
  refine ⟨fun h e => (h.error_iff e).trans (found e).symm, fun h => ⟨?_, fun e => ?_⟩⟩
  · simp only [exists_eq_ok_iff h, List.findSome?_eq_none_iff, none_iff]
  · exact (h e).trans (found e)

/-- What is made of the result afterwards cannot fail. -/
theorem ReportsFirst.map {ι : Type} {places : List ι} {known : ι → Bool} {report : ι → ε}
    {result : Except ε α} (h : ReportsFirst places known report result) (f : α → β) :
    ReportsFirst places known report (result >>= fun a => pure (f a)) := by
  refine reportsFirst_iff.2 fun e => ?_
  rw [← reportsFirst_iff.1 h e]
  cases result <;> simp [bind, Except.bind, pure, Except.pure]

/-- The same is reported in other words. -/
theorem ReportsFirst.mapError {ι : Type} {places : List ι} {known : ι → Bool} {report : ι → ε}
    {result : Except ε α} (h : ReportsFirst places known report result) (f : ε → δ) :
    ReportsFirst places known (fun place => f (report place)) (result.mapError f) := by
  refine ⟨by simpa only [mapError_eq_ok] using h.ok_iff, fun e => ?_⟩
  rw [mapError_eq_error]
  constructor
  · rintro ⟨cause, failed, rfl⟩
    obtain ⟨before, place, after, split, fine, wrong, rfl⟩ := (h.error_iff cause).1 failed
    exact ⟨before, place, after, split, fine, wrong, rfl⟩
  · rintro ⟨before, place, after, split, fine, wrong, rfl⟩
    exact ⟨report place, (h.error_iff _).2 ⟨before, place, after, split, fine, wrong, rfl⟩, rfl⟩

end TreeRewrite
