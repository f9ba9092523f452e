import BoundedMap.Proofs.Pool.Frame
/-!
# What a step asks of a pool

`Uses view kind step` says that whatever a step does to the pool that `view` shows it does by
requests of one kind, also when it ends early. This is closed under sequence (`Uses.bind`),
and the single steps of a pool use one request each, so that it is derived for a program
along its text, without knowing anything about the pool that the program meets.
-/

namespace BoundedMap

variable {α β σ γ δ : Type}

/-- The state that a step leaves behind, however it ends. -/
def leave (step : EStateM Failure σ γ) (s : σ) : σ :=
  match step s with
  | .ok _ t => t
  | .error _ t => t

namespace Pool

variable {view : σ → Pool α β} {kind : Request α β → Prop} {p : Pool α β}

/-! ## Kinds of requests -/

/-- A request for a slot. -/
def Request.takes : Request α β → Bool
  | acquire _ _ => true
  | _ => false

/-- A request that gives a slot back. -/
def Request.gives : Request α β → Bool
  | release _ => true
  | _ => false

/-- A request that neither takes a slot nor gives one back. -/
def Request.keeps (request : Request α β) : Bool :=
  !request.takes && !request.gives

theorem Request.takes_of_keeps {request : Request α β} (keeps : request.keeps = true) :
    request.takes = false := by
  rw [Request.keeps, Bool.and_eq_true, Bool.not_eq_true'] at keeps
  exact keeps.1

theorem Request.gives_of_keeps {request : Request α β} (keeps : request.keeps = true) :
    request.gives = false := by
  rw [Request.keeps, Bool.and_eq_true, Bool.not_eq_true', Bool.not_eq_true'] at keeps
  exact keeps.2

theorem run_append (first second : List (Request α β)) (p : Pool α β) :
    (run (first ++ second) p).2 = (run second (run first p).2).2 := by
  induction first generalizing p with
  | nil => rfl
  | cons request rest ih => exact ih (attempt request p).2

theorem attempt_eq_leave (request : Request α β) (p : Pool α β) :
    (attempt request p).2 = leave (perform request) p := by
  rw [attempt, leave]
  cases perform request p <;> rfl

/-! ## Steps that use a pool -/

/-- Whatever a step does to the pool in view, requests of this kind do. -/
def Uses (view : σ → Pool α β) (kind : Request α β → Prop) (step : EStateM Failure σ γ) : Prop :=
  ∀ s, ∃ requests, (∀ request ∈ requests, kind request) ∧
    (run requests (view s)).2 = view (leave step s)

namespace Uses

variable {step : EStateM Failure σ γ} {next : γ → EStateM Failure σ δ}

theorem mono {kind' : Request α β → Prop} (uses : Uses view kind step)
    (within : ∀ request, kind request → kind' request) : Uses view kind' step := by
  intro s
  obtain ⟨requests, allowed, ran⟩ := uses s
  exact ⟨requests, fun request member => within request (allowed request member), ran⟩

/-- A step that leaves the pool in view alone needs no request. -/
theorem of_same (same : ∀ s, view (leave step s) = view s) : Uses view kind step :=
  fun s => ⟨[], nofun, (same s).symm⟩

theorem pure (a : γ) : Uses view kind (Pure.pure a) :=
  of_same fun _ => rfl

theorem throw (e : Failure) : Uses view kind (MonadExcept.throw e : EStateM Failure σ γ) :=
  of_same fun _ => rfl

theorem lift (a : Except Fault γ) : Uses view kind (liftM a : EStateM Failure σ γ) := by
  refine of_same fun s => ?_
  cases a <;> rfl

theorem get : Uses view kind (MonadState.get : EStateM Failure σ σ) :=
  of_same fun _ => rfl

/-- The requests of a sequence are those of its first step and then those of the next one. -/
theorem bind (first : Uses view kind step) (second : ∀ a, Uses view kind (next a)) :
    Uses view kind (step >>= next) := by
  intro s
  obtain ⟨before, allowed, ran⟩ := first s
  cases met : step s with
  | error e t =>
    rw [leave, met] at ran
    exact ⟨before, allowed, by rw [ran, leave, bind_of_error met]⟩
  | ok a t =>
    rw [leave, met] at ran
    obtain ⟨after, allowed', ran'⟩ := second a t
    refine ⟨before ++ after, fun request member => ?_, ?_⟩
    · exact (List.mem_append.1 member).elim (allowed request) (allowed' request)
    · rw [run_append, ran, leave, bind_of_ok met]
      exact ran'

end Uses

/-! ## The steps of a pool -/

/-- A step that leaves the same pool as one request. -/
theorem Uses.request {request : Request α β} {step : PoolM α β γ} (allowed : kind request)
    (same : ∀ p, leave (perform request) p = leave step p) : Uses id kind step := by
  refine fun p => ⟨[request], fun r member => List.mem_singleton.1 member ▸ allowed, ?_⟩
  show (attempt request p).2 = leave step p
  rw [attempt_eq_leave, same]

/-- What follows a step, if it leaves the pool alone, does not show in what is left. -/
theorem leave_bind_of_same {step : EStateM Failure σ γ} {next : γ → EStateM Failure σ δ}
    (same : ∀ a t, leave (next a) t = t) (s : σ) : leave (step >>= next) s = leave step s := by
  cases met : step s with
  | error e t => rw [leave, leave, bind_of_error met, met]
  | ok a t =>
    rw [leave, bind_of_ok met]
    exact (same a t).trans (by rw [leave, met])

theorem uses_acquire {key : α} {value : β} (allowed : kind (.acquire key value)) :
    Uses id kind (acquire key value) :=
  .request allowed (leave_bind_of_same fun _ _ => rfl)

theorem uses_release {h : Handle} (allowed : kind (.release h)) :
    Uses id kind (release (α := α) (β := β) h) :=
  .request allowed (leave_bind_of_same fun _ _ => rfl)

/-- Reading leaves the pool alone. -/
theorem uses_node (h : Handle) : Uses id kind (node (α := α) (β := β) h) := by
  refine .of_same fun p => ?_
  cases found : p.read h <;> simp [leave, node, found]

/-- A write is the request that writes what is to be written there, or none. -/
theorem uses_update {h : Handle} {change : Node α β → Node α β}
    (written : ∀ n, ∃ request, kind request ∧
      ∀ p : Pool α β, p.read h = .ok n →
        leave (perform request) p = p.put h (.occupied (change n))) :
    Uses id kind (update h change) := by
  intro p
  cases found : p.read h with
  | error what => exact ⟨[], nofun, by simp [run, leave, update, found]⟩
  | ok n =>
    obtain ⟨request, allowed, same⟩ := written n
    refine ⟨[request], fun r member => List.mem_singleton.1 member ▸ allowed, ?_⟩
    show (attempt request p).2 = leave (update h change) p
    rw [attempt_eq_leave, same p found, leave, update_of_read found]

theorem uses_setHeight {h : Handle} {height : Nat} (allowed : kind (.setHeight h height)) :
    Uses id kind (setHeight (α := α) (β := β) h height) :=
  .request allowed (leave_bind_of_same fun _ _ => rfl)

theorem uses_link {h : Handle} {left right : Option Handle} (allowed : kind (.link h left right)) :
    Uses id kind (update (α := α) (β := β) h ({ · with left, right })) :=
  .request allowed (leave_bind_of_same fun _ _ => rfl)

theorem uses_setValue {h : Handle} {value : β} (allowed : kind (.replace h value)) :
    Uses id kind (setValue (α := α) h value) := by
  refine uses_update fun n => ⟨.replace h value, allowed, fun p found => ?_⟩
  rw [perform, leave, bind_of_ok (node_of_read found), setValue,
    bind_of_ok (update_of_read found _)]
  rfl

/-- Linking one child is linking both, the other one to what it is. -/
theorem uses_setChild {h : Handle} {s : Side} {c : Option Handle}
    (allowed : ∀ left right, kind (.link h left right)) :
    Uses id kind (setChild (α := α) (β := β) h s c) := by
  refine uses_update fun n =>
    ⟨.link h (n.withChild s c).left (n.withChild s c).right, allowed _ _, fun p found => ?_⟩
  rw [perform, leave, bind_of_ok (update_of_read found _)]
  cases s <;> rfl

end Pool

end BoundedMap
