import Mathlib.Data.List.Basic

namespace support.refinement

variable {Request Response Concrete Abstract : Type}

/-- The responses of a machine to the requests of a list, in order. -/
def responses (serve : Concrete → Request → Response × Concrete) : Concrete → List Request → List Response
  | _, [] => []
  | c, request :: requests => (serve c request).1 :: responses serve (serve c request).2 requests

/-- The state in which a machine has served the requests of a list. -/
def reached (serve : Concrete → Request → Response × Concrete) : Concrete → List Request → Concrete
  | c, [] => c
  | c, request :: requests => reached serve (serve c request).2 requests

/-- The responses a specification admits to a list of requests, and the state
    it is in after them. -/
inductive Trace (spec : Abstract → Request → Response → Abstract → Prop) :
    Abstract → List Request → List Response → Abstract → Prop where
  | nil (a : Abstract) : Trace spec a [] [] a
  | cons {a b c : Abstract} {request : Request} {response : Response} {requests : List Request}
      {responses : List Response} (hstep : spec a request response b) (hrest : Trace spec b requests responses c) :
      Trace spec a (request :: requests) (response :: responses) c

/-- Every response of the machine is one the specification admits, and leads to
    related states again. -/
def Simulates (serve : Concrete → Request → Response × Concrete)
    (spec : Abstract → Request → Response → Abstract → Prop) (related : Concrete → Abstract → Prop) : Prop :=
  ∀ c a request, related c a → ∃ b, spec a request (serve c request).1 b ∧ related (serve c request).2 b

/-- A machine that simulates a specification request by request does so over
    every list of requests. -/
theorem Simulates.trace {serve : Concrete → Request → Response × Concrete}
    {spec : Abstract → Request → Response → Abstract → Prop} {related : Concrete → Abstract → Prop}
    (hsimulates : Simulates serve spec related) {c : Concrete} {a : Abstract} (hrelated : related c a)
    (requests : List Request) :
    ∃ b, Trace spec a requests (responses serve c requests) b ∧ related (reached serve c requests) b := by
  induction requests generalizing c a with
  | nil => exact ⟨a, .nil a, hrelated⟩
  | cons request requests ih =>
    obtain ⟨b, hstep, hnext⟩ := hsimulates c a request hrelated
    obtain ⟨last, hrest, hlast⟩ := ih hnext
    exact ⟨last, .cons hstep hrest, hlast⟩

/-- Related states of two machines answer every permitted request alike, and are
    related again. -/
def Agrees (machine : Concrete → Request → Response → Concrete → Prop)
    (spec : Abstract → Request → Response → Abstract → Prop) (permitted : Request → Prop)
    (related : Concrete → Abstract → Prop) : Prop :=
  ∀ c a request, permitted request → related c a →
    ∃ response c' a', machine c request response c' ∧ spec a request response a' ∧ related c' a'

/-- Machines that agree request by request answer every list of permitted
    requests, and alike. -/
theorem Agrees.traces {machine : Concrete → Request → Response → Concrete → Prop}
    {spec : Abstract → Request → Response → Abstract → Prop} {permitted : Request → Prop}
    {related : Concrete → Abstract → Prop} (hagrees : Agrees machine spec permitted related) {c : Concrete}
    {a : Abstract} (hrelated : related c a) {requests : List Request} (hpermitted : ∀ r ∈ requests, permitted r) :
    ∃ responses c' a', Trace machine c requests responses c' ∧ Trace spec a requests responses a' ∧ related c' a' := by
  induction requests generalizing c a with
  | nil => exact ⟨[], c, a, .nil c, .nil a, hrelated⟩
  | cons request requests ih =>
    obtain ⟨response, c', a', hmachine, hspec, hnext⟩ :=
      hagrees c a request (hpermitted request List.mem_cons_self) hrelated
    obtain ⟨responses, c'', a'', hrest, hrest', hlast⟩ :=
      ih hnext fun r hr => hpermitted r (List.mem_cons_of_mem _ hr)
    exact ⟨response :: responses, c'', a'', .cons hmachine hrest, .cons hspec hrest', hlast⟩

end support.refinement
