import RegAtlas.Build
import RegAtlas.Proofs.Check.WellFormed
import RegAtlas.Proofs.Resolve.Expansion

namespace RegAtlas

variable {l : Listing} {m : RegisterMap}

theorem Listing.build_ok_iff :
    l.build.result = .ok m ↔ l.resolve.result = .ok m ∧ m.check.result = .ok () := by
  simp only [build, Logged.result_bind, Logged.result_pure, Success.bind_eq_ok, Except.ok.injEq]
  constructor
  · rintro ⟨m, hm, _, hcheck, rfl⟩
    exact ⟨hm, hcheck⟩
  · rintro ⟨hm, hcheck⟩
    exact ⟨m, hm, (), hcheck, rfl⟩

theorem Listing.build_error_iff {f : Fault} :
    l.build.result = .error f ↔ l.resolve.result = .error f ∨
      ∃ m, l.resolve.result = .ok m ∧ m.check.result = .error f := by
  rw [build, Logged.result_bind, Success.bind_eq_error]
  apply or_congr_right
  simp only [Logged.seq_eq_error, Logged.result_pure, reduceCtorEq, and_false, or_false]

theorem RegisterMap.WellFormed.of_build (h : l.build.result = .ok m) : m.WellFormed :=
  .of_check (Listing.build_ok_iff.1 h).2

end RegAtlas
