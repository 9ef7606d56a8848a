

/-!
# Programs that make requests

A program asks its surroundings for something, goes on with the answer, and
finishes with a result. What an answer is and how it is computed is left to a
handler; a program that catches exceptions goes on after an answer that stands
for one. A relation between states that every request respects is respected by
every program.
-/

/-- A call returns, or ends with an exception. -/
inductive Outcome
  | returned
  | thrown
  deriving DecidableEq, Repr

/-- A program with requests in `Req`, answers in `Res` and results in `Out`. -/
inductive Program (Req Res Out : Type)
  | finish (out : Out)
  | request (req : Req) (next : Res → Program Req Res Out)

namespace Program

variable {Req Res Out Out' State : Type}

/-- The result of a program and the state after it, when each request is answered
by `handle`. -/
def run (handle : Req → State → Res × State) : Program Req Res Out → State → Out × State
  | finish out, s => (out, s)
  | request req next, s => run handle (next (handle req s).1) (handle req s).2

/-- The same for a handler that may not come back: then neither does the program. -/
def eval (handle : Req → State → Option (Res × State)) :
    Program Req Res Out → State → Option (Out × State)
  | finish out, s => some (out, s)
  | request req next, s => (handle req s).bind fun answer => eval handle (next answer.1) answer.2

/-- The program `p` followed by what `next` makes of its result. -/
def bind (p : Program Req Res Out) (next : Out → Program Req Res Out') : Program Req Res Out' :=
  match p with
  | finish out => next out
  | request req continuation => request req fun answer => (continuation answer).bind next

/-- The program that makes one request and finishes with the answer. -/
def ask (req : Req) : Program Req Res Res := request req finish

/-- A program keeps what each of its requests keeps. -/
theorem run_respects {R : State → State → Prop} {handle : Req → State → Res × State}
    (hrefl : ∀ s, R s s) (htrans : ∀ s t u, R s t → R t u → R s u)
    (hstep : ∀ req s, R s (handle req s).2) (p : Program Req Res Out) (s : State) :
    R s (p.run handle s).2 := by
  induction p generalizing s with
  | finish out => exact hrefl s
  | request req next ih => exact htrans _ _ _ (hstep req s) (ih _ _)

/-- The same for a handler that may not come back. -/
theorem eval_respects {R : State → State → Prop}
    {handle : Req → State → Option (Res × State)} (hrefl : ∀ s, R s s)
    (htrans : ∀ s t u, R s t → R t u → R s u)
    (hstep : ∀ req s answer, handle req s = some answer → R s answer.2)
    {p : Program Req Res Out} {s : State} {result : Out × State}
    (h : p.eval handle s = some result) : R s result.2 := by
  induction p generalizing s with
  | finish out =>
    obtain rfl : (out, s) = result := by simpa [eval] using h
    exact hrefl s
  | request req next ih =>
    obtain ⟨answer, hanswer, hrest⟩ := Option.bind_eq_some_iff.mp h
    exact htrans _ _ _ (hstep req s answer hanswer) (ih _ hrest)

end Program

/-!
## Computations with exceptions

A computation changes a state and returns a value or ends with an exception; the
changes made before an exception stay. It may also not end at all. The rules say
which relation between the states before and after a computation holds of one
that is put together from others.
-/

/-- A result that depends on another one is a value just if both are. -/
theorem except_bind_eq_ok {ε α β : Type} {p : Except ε α} {next : α → Except ε β} {b : β} :
    p >>= next = .ok b ↔ ∃ a, p = .ok a ∧ next a = .ok b := by
  cases p with
  | error e => simp [bind, Except.bind]
  | ok a => simp [bind, Except.bind]

/-- As many results as there were elements. -/
theorem length_of_mapM {ε α β : Type} {f : α → Except ε β} {l : List α} {l' : List β}
    (h : l.mapM f = .ok l') : l'.length = l.length := by
  induction l generalizing l' with
  | nil =>
    cases h
    rfl
  | cons a l ih =>
    rw [List.mapM_cons] at h
    obtain ⟨b, -, h⟩ := except_bind_eq_ok.mp h
    obtain ⟨rest, hrest, h⟩ := except_bind_eq_ok.mp h
    cases h
    exact congrArg (· + 1) (ih hrest)

/-- Computations over states `σ` with exceptions in `ε`. -/
def Exceptional (σ ε α : Type) : Type := σ → Option (Except ε α × σ)

namespace Exceptional

variable {σ ε α β : Type} {next : α → Exceptional σ ε β} {p : Exceptional σ ε α}
  {handler : ε → Exceptional σ ε α} {Q : α → Prop}

instance : Monad (Exceptional σ ε) where
  pure a := fun s => some (.ok a, s)
  bind p next := fun s => (p s).bind fun
    | (.ok a, s) => next a s
    | (.error e, s) => some (.error e, s)

instance : LawfulMonad (Exceptional σ ε) := by
  refine LawfulMonad.mk' _ ?_ (fun _ _ => rfl) ?_
  · intro α p
    funext s
    change (p s).bind _ = p s
    cases p s with
    | none => rfl
    | some result =>
      obtain ⟨a | e, t⟩ := result
      · rfl
      · rfl
  · intro α β γ p f g
    funext s
    change ((p s).bind _).bind _ = (p s).bind _
    cases p s with
    | none => rfl
    | some result =>
      obtain ⟨e | a, t⟩ := result
      · rfl
      · rfl

/-- The computation that does not end. -/
def diverge : Exceptional σ ε α := fun _ => none

/-- The computation that ends with an exception. -/
def raise (e : ε) : Exceptional σ ε α := fun s => some (.error e, s)

/-- Returns a result, or ends with it where it is an exception. -/
def ofResult (result : Except ε α) : Exceptional σ ε α := fun s => some (result, s)

/-- Goes on in `handler` after an exception. -/
def catching (p : Exceptional σ ε α) (handler : ε → Exceptional σ ε α) : Exceptional σ ε α :=
  fun s => (p s).bind fun
    | (.ok a, s) => some (.ok a, s)
    | (.error e, s) => handler e s

/-- The result of `p`, be it a value or an exception. -/
def attempt (p : Exceptional σ ε α) : Exceptional σ ε (Except ε α) :=
  fun s => (p s).map fun (result, s) => (.ok result, s)

/-- Does `p` for each element in turn. -/
def forEach (p : β → Exceptional σ ε Unit) : List β → Exceptional σ ε Unit
  | [] => pure ()
  | b :: bs => do
    p b
    forEach p bs

/-- A change of the state when `p` ends, as a destructor makes it. -/
def ensuring (p : Exceptional σ ε α) (cleanup : σ → σ) : Exceptional σ ε α :=
  fun s => (p s).map fun (result, s) => (result, cleanup s)

/-- The current state. -/
def current : Exceptional σ ε σ := fun s => some (.ok s, s)

/-- The state is changed. -/
def update (f : σ → σ) : Exceptional σ ε Unit := fun s => some (.ok (), f s)

/-- A program as a computation, with its requests answered by `handle`. -/
def ofProgram {Req Res : Type} (handle : Req → Exceptional σ ε Res)
    (program : Program Req (Except ε Res) (Except ε α)) : Exceptional σ ε α :=
  program.eval handle

/-- Whenever `p` ends, by an exception or not, `R` holds of the states before and
after it. -/
def Keeps (R : σ → σ → Prop) (p : Exceptional σ ε α) : Prop :=
  ∀ s result t, p s = some (result, t) → R s t

/-- Whenever `p` returns a value, `Q` holds of it. -/
def Returns (Q : α → Prop) (p : Exceptional σ ε α) : Prop :=
  ∀ s a t, p s = some (.ok a, t) → Q a

theorem returns_pure {a : α} (h : Q a) :
    Returns Q (pure a : Exceptional σ ε α) := by
  intro s b t heq
  obtain ⟨rfl, -⟩ : a = b ∧ s = t := by simpa [pure] using heq
  exact h

theorem returns_raise (Q : α → Prop) (e : ε) : Returns Q (raise e : Exceptional σ ε α) := by
  intro s a t heq
  simp [raise] at heq

theorem returns_diverge (Q : α → Prop) : Returns Q (diverge : Exceptional σ ε α) := by
  intro s a t heq
  simp [diverge] at heq

theorem Returns.bind {P : α → Prop} {Q : β → Prop} (hp : Returns P p)
    (h : ∀ a, P a → Returns Q (next a)) :
    Returns Q (p >>= next) := by
  intro s b u heq
  obtain ⟨⟨first, t⟩, hfirst, hrest⟩ := Option.bind_eq_some_iff.mp heq
  cases first with
  | ok a => exact h a (hp s a t hfirst) t b u hrest
  | error e => simp at hrest

theorem returns_bind {Q : β → Prop} (p : Exceptional σ ε α)
    (h : ∀ a, Returns Q (next a)) : Returns Q (p >>= next) :=
  have hp : Returns (fun _ => True) p := fun _ _ _ _ => trivial
  hp.bind fun a _ => h a

theorem Returns.catching (hp : Returns Q p) (h : ∀ e, Returns Q (handler e)) :
    Returns Q (p.catching handler) := by
  intro s a u heq
  obtain ⟨⟨first, t⟩, hfirst, hrest⟩ := Option.bind_eq_some_iff.mp heq
  cases first with
  | ok b =>
    obtain ⟨rfl, rfl⟩ : b = a ∧ t = u := by simpa using hrest
    exact hp s b t hfirst
  | error e => exact h e t a u hrest

/-- Continuations can be exchanged if they are the same on what is returned. -/
theorem Returns.bind_congr (h : Returns Q p) {next next' : α → Exceptional σ ε β}
    (hnext : ∀ a, Q a → next a = next' a) :
    p >>= next = p >>= next' := by
  funext s
  change (p s).bind _ = (p s).bind _
  cases hp : p s with
  | none => rfl
  | some result =>
    obtain ⟨e | a, t⟩ := result
    · rfl
    · simp only [Option.bind_some]
      rw [hnext a (h s a t hp)]

/-- What a sequence of two computations returns is returned by the second one, after the
first one has returned. -/
theorem bind_eq_ok {s u : σ} {b : β} :
    (p >>= next) s = some (.ok b, u) ↔
      ∃ a t, p s = some (.ok a, t) ∧ next a t = some (.ok b, u) := by
  constructor
  · intro heq
    obtain ⟨⟨first, t⟩, hfirst, hrest⟩ := Option.bind_eq_some_iff.mp heq
    cases first with
    | ok a => exact ⟨a, t, hfirst, hrest⟩
    | error e => simp at hrest
  · rintro ⟨a, t, hfirst, hrest⟩
    exact Option.bind_eq_some_iff.mpr ⟨(.ok a, t), hfirst, hrest⟩

theorem pure_eq_ok {a b : α} {s t : σ} :
    (pure a : Exceptional σ ε α) s = some (.ok b, t) ↔ a = b ∧ s = t := by
  simp [pure]

/-- A function applied to what a computation returns. -/
theorem bind_pure_eq_map (p : Exceptional σ ε α) (f : α → β) (s : σ) :
    (p >>= fun a => pure (f a)) s = (p s).map fun ended => (ended.1.map f, ended.2) := by
  change (p s).bind _ = _
  cases p s with
  | none => rfl
  | some ended =>
    obtain ⟨e | a, t⟩ := ended
    · rfl
    · rfl

theorem bind_of_ok {s t : σ} {a : α}
    (h : p s = some (.ok a, t)) : (p >>= next) s = next a t := by
  change (p s).bind _ = _
  rw [h]
  rfl

/-- The computation does not end with an exception. -/
def NeverRaises (p : Exceptional σ ε α) : Prop := ∀ s e t, p s ≠ some (.error e, t)

theorem neverRaises_pure (a : α) : NeverRaises (pure a : Exceptional σ ε α) := by
  intro s e t h
  simp [pure] at h

theorem neverRaises_update (f : σ → σ) : NeverRaises (update f : Exceptional σ ε Unit) := by
  intro s e t h
  simp [update] at h

theorem neverRaises_diverge : NeverRaises (diverge : Exceptional σ ε α) := by
  intro s e t h
  simp [diverge] at h

theorem NeverRaises.bind (hp : NeverRaises p) (hnext : ∀ a, NeverRaises (next a)) :
    NeverRaises (p >>= next) := by
  intro s e u h
  obtain ⟨⟨first, t⟩, hfirst, hrest⟩ := Option.bind_eq_some_iff.mp h
  cases first with
  | ok a => exact hnext a t e u hrest
  | error e' => exact hp s e' t hfirst

/-- What comes before the part that a clean-up is made for may as well belong to it. -/
theorem NeverRaises.bind_ensuring (hp : NeverRaises p) (next : α → Exceptional σ ε β)
    (cleanup : σ → σ) :
    p >>= (fun a => (next a).ensuring cleanup) = (p >>= next).ensuring cleanup := by
  funext s
  change (p s).bind _ = ((p s).bind _).map _
  cases hs : p s with
  | none => rfl
  | some result =>
    obtain ⟨e | a, t⟩ := result
    · exact absurd hs (hp s e t)
    · rfl

variable {R : σ → σ → Prop} {p : Exceptional σ ε α}

theorem Keeps.mono {R' : σ → σ → Prop} (h : Keeps R p) (hle : ∀ s t, R s t → R' s t) :
    Keeps R' p := fun s result t heq => hle s t (h s result t heq)

theorem keeps_ofResult (hrefl : ∀ s, R s s) (result : Except ε α) :
    Keeps R (ofResult result : Exceptional σ ε α) := by
  intro s result' t h
  simp only [ofResult, Option.some.injEq, Prod.mk.injEq] at h
  rw [← h.2]
  exact hrefl s

theorem keeps_pure (hrefl : ∀ s, R s s) (a : α) :
    Keeps R (pure a : Exceptional σ ε α) := keeps_ofResult hrefl (.ok a)

theorem keeps_raise (hrefl : ∀ s, R s s) (e : ε) :
    Keeps R (raise e : Exceptional σ ε α) := keeps_ofResult hrefl (.error e)

theorem keeps_diverge : Keeps R (diverge : Exceptional σ ε α) := by
  intro s result t h
  simp [diverge] at h

/-- A computation that only looks at the state keeps all of it. -/
theorem keeps_observe (hrefl : ∀ s, R s s) (f : σ → Except ε α) :
    Keeps R (fun s => some (f s, s) : Exceptional σ ε α) := by
  intro s result t h
  obtain ⟨-, rfl⟩ : f s = result ∧ s = t := by simpa using h
  exact hrefl s

theorem keeps_current (hrefl : ∀ s, R s s) : Keeps R (current : Exceptional σ ε σ) :=
  keeps_observe hrefl fun s => .ok s

theorem keeps_update {f : σ → σ} (h : ∀ s, R s (f s)) :
    Keeps R (update f : Exceptional σ ε Unit) := by
  intro s result t heq
  simp only [update, Option.some.injEq, Prod.mk.injEq] at heq
  rw [← heq.2]
  exact h s

theorem Keeps.bind (htrans : ∀ s t u, R s t → R t u → R s u) (hp : Keeps R p)
    (hnext : ∀ a, Keeps R (next a)) : Keeps R (p >>= next) := by
  intro s result u h
  obtain ⟨⟨first, t⟩, hfirst, hrest⟩ := Option.bind_eq_some_iff.mp h
  have hst := hp s first t hfirst
  cases first with
  | ok a => exact htrans _ _ _ hst (hnext a t result u hrest)
  | error e =>
    simp only [Option.some.injEq, Prod.mk.injEq] at hrest
    rw [← hrest.2]
    exact hst

theorem Keeps.catching (htrans : ∀ s t u, R s t → R t u → R s u) (hp : Keeps R p)
    (hhandler : ∀ e, Keeps R (handler e)) :
    Keeps R (p.catching handler) := by
  intro s result u h
  obtain ⟨⟨first, t⟩, hfirst, hrest⟩ := Option.bind_eq_some_iff.mp h
  have hst := hp s first t hfirst
  cases first with
  | ok a =>
    simp only [Option.some.injEq, Prod.mk.injEq] at hrest
    rw [← hrest.2]
    exact hst
  | error e => exact htrans _ _ _ hst (hhandler e t result u hrest)

theorem Keeps.attempt (hp : Keeps R p) : Keeps R p.attempt := by
  intro s result t h
  obtain ⟨⟨result', t'⟩, hrun, hend⟩ := Option.map_eq_some_iff.mp h
  obtain rfl : t' = t := (Prod.ext_iff.mp hend).2
  exact hp s result' t' hrun

theorem keeps_forEach (hrefl : ∀ s, R s s) (htrans : ∀ s t u, R s t → R t u → R s u)
    {q : β → Exceptional σ ε Unit} (hq : ∀ b, Keeps R (q b)) (bs : List β) :
    Keeps R (forEach q bs) := by
  induction bs with
  | nil => exact keeps_pure hrefl ()
  | cons b bs ih => exact (hq b).bind htrans fun _ => ih

/-- A program keeps what the answers to its requests keep. -/
theorem keeps_ofProgram {Req Res : Type} (hrefl : ∀ s, R s s)
    (htrans : ∀ s t u, R s t → R t u → R s u) {handle : Req → Exceptional σ ε Res}
    (hhandle : ∀ req, Keeps R (handle req)) (program : Program Req (Except ε Res) (Except ε α)) :
    Keeps R (ofProgram handle program) := by
  intro s result t h
  exact Program.eval_respects hrefl htrans
    (fun req s answer hanswer => hhandle req s answer.1 answer.2 hanswer) h

end Exceptional
