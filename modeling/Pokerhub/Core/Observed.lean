import Pokerhub.Core.Service

/-!
# Notes on the runs of a service

Statements about the past of a run need more than the shared state. A service can be observed: its
commands leave notes beside the state, which no program reads. The runs of the observed service are
the runs of the service (`Service.reachable_of_observed`, `Service.exists_observed`).
-/

namespace Service

variable {C : Type} {R : C → Type} {ε α σ ρ β : Type} (S : Service R ε α σ ρ)
  (note : (c : C) → σ → β → β) (b₀ : β)

/-- The service, and the notes that its commands leave. -/
def observed : Service R ε α (σ × β) ρ where
  init s := S.init s.1 ∧ s.2 = b₀
  ready s r := S.ready s.1 r
  body := S.body
  exec r c s := ((S.exec r c s.1).1, (S.exec r c s.1).2, note c s.1 s.2)
  fails s c := S.fails s.1 c
  env s s' := S.env s.1 s'.1 ∧ s'.2 = s.2

variable {S note b₀}

theorem reachable_of_observed {P : Pool R ε α (σ × β) ρ}
    (h : (S.observed note b₀).system.Reachable P) : S.system.Reachable ⟨P.state.1, P.threads⟩ := by
  refine h.invariant (I := fun P => S.system.Reachable ⟨P.state.1, P.threads⟩) ?_ ?_
  · exact fun P hP => .of_init ⟨hP.1.1, hP.2⟩
  · rintro _ _ _ hreach hstep
    cases hstep with
    | start hready => exact hreach.tail (.start hready)
    | call => exact hreach.tail .call
    | fault hfails => exact hreach.tail (.fault hfails)
    | env henv => exact hreach.tail (.env henv.1)

/-- Every run of the service can be observed. -/
theorem exists_observed {P : Pool R ε α σ ρ} (h : S.system.Reachable P) :
    ∃ b, (S.observed note b₀).system.Reachable ⟨(P.state, b), P.threads⟩ := by
  refine h.invariant
    (I := fun P => ∃ b, (S.observed note b₀).system.Reachable ⟨(P.state, b), P.threads⟩) ?_ ?_
  · exact fun P hP => ⟨b₀, .of_init ⟨⟨hP.1, rfl⟩, hP.2⟩⟩
  · rintro _ a _ ⟨b, hreach⟩ hstep
    cases hstep with
    | start hready => exact ⟨b, hreach.tail (.start hready)⟩
    | @call s ts₁ ts₂ r c next => exact ⟨note c s b, hreach.tail .call⟩
    | fault hfails => exact ⟨b, hreach.tail (.fault hfails)⟩
    | env henv => exact ⟨b, hreach.tail (.env ⟨henv, rfl⟩)⟩

end Service
