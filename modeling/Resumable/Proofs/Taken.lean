import Resumable.Frame.Effect
import Resumable.Proofs.Effects

/-!
# Operands that an instruction takes

An instruction that can stand in a frame finds operands on its stack.  What it takes from there, and
what it leaves, is said once for each way of taking operands.

* `Frame.Takes` : some operands are taken, and nothing else changes;
* `Frame.popKind_ok`, `Frame.popNarrow_ok`, `Frame.popKinds_ok` : the ways of taking operands;
* `Frame.apply_invoke` : the operands of a call.
-/

namespace Resumable
namespace Frame

/-- operands are taken, the first one from the top, and nothing else changes -/
structure Takes (f : Frame) (cs : List Category) (g : Frame) : Prop where
  stack : f.stack = cs ++ g.stack
  locals : g.locals = f.locals

section
variable {f g e : Frame} {c : Category} {cs ds : List Category} {k : Kind} {ks : List Kind}

theorem Takes.refl (f : Frame) : f.Takes [] f := ⟨rfl, rfl⟩

theorem Takes.trans (h : f.Takes cs g) (h' : g.Takes ds e) : f.Takes (cs ++ ds) e :=
  ⟨by rw [h.stack, h'.stack, List.append_assoc], h'.locals.trans h.locals⟩

theorem Takes.length (h : f.Takes cs g) : f.stack.length = cs.length + g.stack.length := by
  rw [h.stack, List.length_append]

theorem pop_ok (h : f.pop = .ok (c, g)) : f.Takes [c] g := by
  unfold pop at h
  split at h
  · exact absurd h (by simp)
  · rename_i c' rest hstack
    obtain ⟨rfl, rfl⟩ : c' = c ∧ { f with stack := rest } = g := by simpa using h
    exact ⟨hstack, rfl⟩

theorem popKind_ok (h : f.popKind k = .ok (c, g)) : f.Takes [c] g ∧ c.kind? = some k := by
  obtain ⟨⟨c', g'⟩, hpop, h⟩ := Effect.bind_eq_ok h
  dsimp only at h
  split at h
  · rename_i hk
    obtain ⟨rfl, rfl⟩ : c' = c ∧ g' = g := by simpa using h
    exact ⟨pop_ok hpop, hk⟩
  · exact absurd h (by simp)

theorem popNarrow_ok (h : f.popNarrow = .ok (c, g)) : f.Takes [c] g ∧ c.width = 1 := by
  obtain ⟨⟨c', g'⟩, hpop, h⟩ := Effect.bind_eq_ok h
  dsimp only at h
  split at h
  · rename_i hk
    obtain ⟨rfl, rfl⟩ : c' = c ∧ g' = g := by simpa using h
    exact ⟨pop_ok hpop, hk⟩
  · exact absurd h (by simp)

theorem popKinds_ok (h : f.popKinds ks = .ok g) :
    ∃ cs, f.Takes cs g ∧ cs.map Category.kind? = ks.map some := by
  induction ks generalizing f with
  | nil =>
    obtain rfl : f = g := by simpa [popKinds] using h
    exact ⟨[], .refl f, rfl⟩
  | cons k ks ih =>
    obtain ⟨⟨c, f'⟩, hpop, h⟩ := Effect.bind_eq_ok h
    obtain ⟨htakes, hk⟩ := popKind_ok hpop
    obtain ⟨cs, hrest, hks⟩ := ih h
    refine ⟨c :: cs, htakes.trans hrest, ?_⟩
    rw [List.map_cons, List.map_cons, hks, hk]

theorem getLocal_ok {slot : UInt16} (h : f.getLocal slot = .ok c) :
    f.locals[slot.toNat]? = some c := by
  unfold getLocal at h
  split at h
  · rename_i c' hc
    rw [hc, Except.ok.inj h]
  · exact absurd h (by simp)

theorem setLocal_ok {slot : UInt16} (h : f.setLocal slot c = .ok g) :
    slot.toNat + c.width ≤ f.locals.length ∧ g.locals = putLocal f.locals slot.toNat c ∧
      g.stack = f.stack := by
  unfold setLocal at h
  split at h
  · rename_i hle
    rw [← Except.ok.inj h]
    exact ⟨hle, rfl, rfl⟩
  · exact absurd h (by simp)

/-- operands of so many kinds are as many operands -/
theorem length_of_kinds (h : cs.map Category.kind? = ks.map some) : cs.length = ks.length := by
  simpa using congrArg List.length h

end

/-- the frame after a call that leaves a result, if it does -/
def pushResult (f : Frame) : Option FieldType → Frame
  | some t => f.push (.ofType t)
  | none => f

@[simp] theorem locals_pushResult (f : Frame) (ret : Option FieldType) :
    (f.pushResult ret).locals = f.locals := by
  cases ret <;> rfl

/-- the kinds of a call's operands, from the top of the stack -/
def operandKinds (kind : InvokeKind) (d : MethodDesc) : List Kind :=
  d.params.reverse.map FieldType.kind ++ if kind.hasReceiver then [.ref] else []

/-- **A call** that can stand in a frame finds its operands there -/
theorem apply_invoke {f g : Frame} {kind : InvokeKind} {m : MethodId}
    (h : f.apply (.invoke kind m) = .ok g) :
    ∃ d cs e, MethodDesc.parse? m.desc = some d ∧ f.Takes cs e ∧
      cs.map Category.kind? = (operandKinds kind d).map some ∧ g = e.pushResult d.ret := by
  rw [apply] at h
  split at h
  · exact absurd h (by simp)
  · rename_i d hd
    obtain ⟨f1, hargs, h⟩ := Effect.bind_eq_ok h
    obtain ⟨cs, htakes, hcs⟩ := popKinds_ok hargs
    have hresult {e : Frame} (h : (match d.ret with
        | some t => Except.ok (e.push (.ofType t))
        | none => Except.ok e : Except AnalysisFailure Frame) = .ok g) : g = e.pushResult d.ret := by
      unfold pushResult
      split at h <;> exact (Except.ok.inj h).symm
    by_cases hr : kind.hasReceiver = true
    · simp only [hr, if_true] at h
      obtain ⟨f2, hreceiver, h⟩ := Effect.bind_eq_ok h
      obtain ⟨ds, htakes', hds⟩ := popKinds_ok hreceiver
      refine ⟨d, cs ++ ds, f2, hd, htakes.trans htakes', ?_, hresult h⟩
      simp only [operandKinds, hr, if_true, List.map_append, hcs, hds]
    · simp only [hr, Bool.false_eq_true, if_false] at h
      obtain ⟨f2, hf2, h⟩ := Effect.bind_eq_ok h
      obtain rfl : f1 = f2 := Except.ok.inj hf2
      refine ⟨d, cs, f1, hd, htakes, ?_, hresult h⟩
      simp only [operandKinds, hr, Bool.false_eq_true, if_false, List.append_nil, hcs]

end Frame
end Resumable
