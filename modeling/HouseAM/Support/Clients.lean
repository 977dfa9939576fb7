import HouseAM.Support.Runs

open support.runs

namespace support.clients

variable {State Request Response Local Result Other : Type}

/-- What a program does from some point on: it is done, it makes a request and
    goes on with the response, or nothing is said about it any more. -/
inductive Program (Request Response Result : Type) where
  | done (result : Result)
  | request (request : Request) (next : Response → Program Request Response Result)
  | lost

namespace Program

def bind : Program Request Response Result → (Result → Program Request Response Other) →
    Program Request Response Other
  | done result, then_do => then_do result
  | request r next, then_do => request r fun response => (next response).bind then_do
  | lost, _ => lost

instance : Monad (Program Request Response) where
  pure := done
  bind := bind

/-- Go on with a value, if there is one. -/
def given : Option Result → Program Request Response Result
  | some result => done result
  | none => lost

/-- A loop whose body says with which locals the next pass starts, or with which
    result the loop ends. It is given up after so many passes. -/
def iterate (body : Local → Program Request Response (Local ⊕ Result)) : Nat → Local →
    Program Request Response Result
  | 0, _ => lost
  | n + 1, locals => (body locals).bind fun
    | .inl locals => iterate body n locals
    | .inr result => done result

end Program

/-- The requests a program has made, each with its response, oldest first. -/
abbrev History (Request Response : Type) : Type := List (Request × Response)

/-- What a program makes its requests of, and how the state can change between
    two of them. A request may never be answered. -/
structure Service (State Request Response : Type) where
  serve : State → Request → Option (Response × State)
  drifts : State → State → Prop
  refl : ∀ s, drifts s s
  trans : ∀ {s s' s''}, drifts s s' → drifts s' s'' → drifts s s''

variable {service : Service State Request Response} {history : History Request Response} {s s' : State}
  {post weaker : Result → History Request Response → State → Prop} {program : Program Request Response Result}
  {locals : Local} {n : Nat}

/-- However the state changes in between, the program's requests are answered,
    and it ends with the postcondition. -/
def Program.Ensures (service : Service State Request Response)
    (post : Result → History Request Response → State → Prop) :
    Program Request Response Result → History Request Response → State → Prop
  | done result, history, s => ∀ s', service.drifts s s' → post result history s'
  | request r next, history, s => ∀ s', service.drifts s s' → ∃ response s'',
      service.serve s' r = some (response, s'') ∧ (next response).Ensures service post (history ++ [(r, response)]) s''
  | lost, _, _ => False

namespace Program

theorem Ensures.drift (hensures : program.Ensures service post history s) (hdrift : service.drifts s s') :
    program.Ensures service post history s' := by
  cases program with
  | done result => exact fun s'' hlater => hensures s'' (service.trans hdrift hlater)
  | request r next => exact fun s'' hlater => hensures s'' (service.trans hdrift hlater)
  | lost => exact hensures

theorem Ensures.mono (hensures : program.Ensures service post history s)
    (hweaker : ∀ result history s, post result history s → weaker result history s) :
    program.Ensures service weaker history s := by
  induction program generalizing history s with
  | done result => exact fun s' hdrift => hweaker _ _ _ (hensures s' hdrift)
  | request r next ih =>
    intro s' hdrift
    obtain ⟨response, s'', hserve, hnext⟩ := hensures s' hdrift
    exact ⟨response, s'', hserve, ih response hnext⟩
  | lost => exact hensures

/-- One program behind another. -/
theorem Ensures.bind {then_do : Result → Program Request Response Other}
    {post : Other → History Request Response → State → Prop}
    (hensures : program.Ensures service (fun result => (then_do result).Ensures service post) history s) :
    (program.bind then_do).Ensures service post history s := by
  induction program generalizing history s with
  | done result => exact hensures s (service.refl s)
  | request r next ih =>
    intro s' hdrift
    obtain ⟨response, s'', hserve, hnext⟩ := hensures s' hdrift
    exact ⟨response, s'', hserve, ih response hnext⟩
  | lost => exact hensures

theorem Ensures.given {then_do : Result → Program Request Response Other}
    {post : Other → History Request Response → State → Prop} {option : Option Result} {result : Result}
    (hsome : option = some result) (hensures : (then_do result).Ensures service post history s) :
    ((Program.given option).bind then_do).Ensures service post history s := by
  rw [hsome]
  exact hensures

/-- A pass of a loop keeps an invariant with a smaller number, or ends the loop
    with its postcondition. -/
def Passes (service : Service State Request Response)
    (invariant : Nat → Local → History Request Response → State → Prop)
    (post : Result → History Request Response → State → Prop) (m : Nat) :
    Local ⊕ Result → History Request Response → State → Prop
  | .inl locals, history, s => ∃ l < m, invariant l locals history s
  | .inr result, history, s => ∀ s', service.drifts s s' → post result history s'

/-- A loop ends with its postcondition if every pass does so or goes on. -/
theorem iterate_ensures {body : Local → Program Request Response (Local ⊕ Result)}
    {invariant : Nat → Local → History Request Response → State → Prop} {m : Nat}
    (hpass : ∀ m locals history s, invariant m locals history s →
      (body locals).Ensures service (Passes service invariant post m) history s)
    (hstart : invariant m locals history s) (henough : m < n) :
    (iterate body n locals).Ensures service post history s := by
  induction n generalizing m locals history s with
  | zero => exact absurd henough (Nat.not_lt_zero _)
  | succ n ih =>
    refine Ensures.bind ((hpass m locals history s hstart).mono fun outcome history' s' hafter => ?_)
    cases outcome with
    | inl locals' =>
      obtain ⟨l, hless, hnext⟩ := hafter
      exact ih hnext (Nat.lt_of_lt_of_le hless (Nat.le_of_lt_succ henough))
    | inr result => exact hafter

end Program

/-! Programs at work. -/

/-- A program makes its next request, or the state changes by itself. -/
inductive Turn (State : Type) where
  | request
  | drift (s : State)

/-- What is left of a program, and the state it goes on in. -/
abbrev Session (State Request Response Result : Type) : Type := Program Request Response Result × State

def turn (service : Service State Request Response) (session : Session State Request Response Result) :
    Turn State → Option (Session State Request Response Result)
  | .request =>
    match session.1 with
    | .request r next => (service.serve session.2 r).map fun served => (next served.1, served.2)
    | _ => none
  | .drift s => some (session.1, s)

def Allowed (service : Service State Request Response) (session : Session State Request Response Result) :
    Turn State → Prop
  | .request => True
  | .drift s => service.drifts session.2 s

/-- The request of a turn, with its response. -/
def requested (service : Service State Request Response)
    (taken : Session State Request Response Result × Turn State) : Option (Request × Response) :=
  match taken.2, taken.1.1 with
  | .request, .request r _ => (service.serve taken.1.2 r).map fun served => (r, served.1)
  | _, _ => none

def historyOf (service : Service State Request Response)
    (log : List (Session State Request Response Result × Turn State)) : History Request Response :=
  log.filterMap (requested service)

theorem historyOf_append (service : Service State Request Response)
    (log : List (Session State Request Response Result × Turn State))
    (taken : Session State Request Response Result × Turn State) :
    historyOf service (log ++ [taken]) = historyOf service log ++ (requested service taken).toList := by
  rw [historyOf, List.filterMap_append]
  cases htaken : requested service taken <;> simp [historyOf, htaken]

/-- A program that is done is done right, and its next request is answered. -/
structure Fulfils (service : Service State Request Response)
    (post : Result → History Request Response → State → Prop) (history : History Request Response)
    (session : Session State Request Response Result) : Prop where
  done : ∀ result, session.1 = .done result → post result history session.2
  answered : ∀ r next, session.1 = .request r next → (service.serve session.2 r).isSome
  known : session.1 ≠ .lost

theorem Program.Ensures.fulfils (hensures : program.Ensures service post history s) :
    Fulfils service post history (program, s) where
  done := by
    rintro result rfl
    exact hensures s (service.refl s)
  answered := by
    rintro r next rfl
    obtain ⟨response, s', hserve, -⟩ := hensures s (service.refl s)
    exact Option.isSome_of_eq_some hserve
  known := by
    rintro rfl
    exact hensures

/-- A turn keeps what a program ensures. -/
theorem Program.Ensures.turn {session session' : Session State Request Response Result} {t : Turn State}
    (hensures : session.1.Ensures service post history session.2) (hallowed : Allowed service session t)
    (hturn : clients.turn service session t = some session') :
    session'.1.Ensures service post (history ++ (requested service (session, t)).toList) session'.2 := by
  obtain ⟨program, s⟩ := session
  cases t with
  | drift s' =>
    cases hturn
    simpa [requested] using hensures.drift hallowed
  | request =>
    cases program with
    | done result => cases hturn
    | lost => cases hturn
    | request r next =>
      obtain ⟨response, s', hserve, hnext⟩ := hensures s (service.refl s)
      simp only [clients.turn, hserve, Option.map_some, Option.some.injEq] at hturn
      subst hturn
      simpa [requested, hserve] using hnext

/-- In every run of a program it does what it ensures. -/
theorem Program.Ensures.run {log : List (Session State Request Response Result × Turn State)}
    {session : Session State Request Response Result} (hensures : program.Ensures service post [] s)
    (run : Run (clients.turn service) (Allowed service) (program, s) log session) :
    Fulfils service post (historyOf service log) session := by
  have hkept : session.1.Ensures service post (historyOf service log) session.2 := by
    refine run.invariant (motive := fun log session =>
      session.1.Ensures service post (historyOf service log) session.2) hensures ?_
    rintro log session t session' - hsession hallowed hturn
    have hafter := hsession.turn hallowed hturn
    rwa [historyOf_append]
  exact hkept.fulfils

/-- A program that does not get stuck in any of its runs gets done in one. -/
theorem exists_done {start : Session State Request Response Result}
    (hfulfils : ∀ log session, Run (turn service) (Allowed service) start log session →
      Fulfils service post (historyOf service log) session) :
    ∃ log result s, Run (turn service) (Allowed service) start log (.done result, s) ∧
      post result (historyOf service log) s := by
  have hcontinued (program : Program Request Response Result) : ∀ log s,
      Run (turn service) (Allowed service) start log (program, s) →
        ∃ log result s, Run (turn service) (Allowed service) start log (.done result, s) := by
    induction program with
    | done result => exact fun log s run => ⟨log, result, s, run⟩
    | lost => exact fun log s run => absurd rfl (hfulfils log _ run).known
    | request r next ih =>
      intro log s run
      obtain ⟨served, hserve⟩ := Option.isSome_iff_exists.mp ((hfulfils log _ run).answered r next rfl)
      have hturn : turn service (.request r next, s) .request = some (next served.1, served.2) := by
        simp only [turn, hserve, Option.map_some]
      have hallowed : Allowed service (.request r next, s) .request := trivial
      exact ih served.1 _ served.2 (run.step hallowed hturn)
  obtain ⟨log, result, s, run⟩ := hcontinued start.1 [] start.2 .start
  exact ⟨log, result, s, run, (hfulfils log _ run).done result rfl⟩

end support.clients
