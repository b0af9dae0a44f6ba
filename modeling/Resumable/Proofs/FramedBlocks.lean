import Resumable.Proofs.Found
import Resumable.Proofs.FrameEffects

/-!
# The frames of a woven block

Around a call the frames are those of the call, of what it leaves, of what it throws, and, where the level
is restored, of what has come back so far.  Each label of the block is reached with one of the first three
or, at the place where the call is entered again, with the frame at the start of the method.

* `Around.framed` : the code of a block with its frames;
* `Around.Suits` : what is asked of the call;
* `Around.Suits.flows` : the block flows;
* `Around.FramedAt` : the frames at its labels.
-/

namespace Resumable

/-! ## code without stores -/

/-- the instruction changes no local -/
def Insn.KeepsLocals (i : Insn) : Prop := ∀ k slot, i ≠ .store k slot

theorem Kind.keepsLocals_zeroInsn (k : Kind) : k.zeroInsn.KeepsLocals := by
  cases k <;> exact fun _ _ h => absurd h (by simp [Kind.zeroInsn])

theorem Kind.keepsLocals_discardInsn (k : Kind) : k.discardInsn.KeepsLocals := by
  cases k <;> exact fun _ _ h => absurd h (by simp [Kind.discardInsn, Kind.width])

theorem keepsLocals_saveValue (c : Category) : ∀ i ∈ saveValue c, i.KeepsLocals := by
  intro i hi
  unfold saveValue at hi
  split at hi
  · split at hi <;> rw [List.mem_singleton.1 hi] <;> exact fun _ _ h => absurd h (by simp [Intrinsic.call])
  · exact absurd hi (by simp)

theorem keepsLocals_saveLocal (slot : UInt16) (c : Category) :
    ∀ i ∈ saveLocal slot c, i.KeepsLocals := by
  intro i hi
  unfold saveLocal at hi
  split at hi
  · rcases List.mem_cons.1 hi with rfl | hi
    · exact fun _ _ h => absurd h (by simp)
    · rw [List.mem_singleton.1 hi]
      exact fun _ _ h => absurd h (by simp [Intrinsic.call])
  · exact absurd hi (by simp)

theorem keepsLocals_companionCode (isStatic rootEntry : Bool) :
    ∀ i ∈ companionCode isStatic rootEntry, i.KeepsLocals := by
  intro i hi k slot h
  subst h
  cases isStatic <;> cases rootEntry <;> simp [companionCode, Intrinsic.call] at hi

theorem keepsLocals_defaultReturn (ret : Option Kind) : ∀ i ∈ defaultReturn ret, i.KeepsLocals := by
  intro i hi
  cases ret with
  | none =>
    rw [List.mem_singleton.1 hi]
    exact fun _ _ h => absurd h (by simp)
  | some k =>
    rcases List.mem_cons.1 hi with rfl | hi
    · exact k.keepsLocals_zeroInsn
    · rw [List.mem_singleton.1 hi]
      exact fun _ _ h => absurd h (by simp)

/-- saving changes no local -/
theorem keepsLocals_saveCode (a : Analysis) (ret : Option Kind) (site : Site) (f : Frame)
    (s : CallShape) : ∀ i ∈ saveCode a ret site f s, i.KeepsLocals := by
  intro i hi
  unfold saveCode at hi
  simp only [List.mem_append] at hi
  rcases hi with (((((hi | hi) | hi) | hi) | hi) | hi) | hi
  · obtain ⟨k, -, rfl⟩ := Option.map_eq_some_iff.1 (Option.mem_toList.1 hi)
    exact k.keepsLocals_discardInsn
  · intro k slot h
    subst h
    split at hi <;> simp [Intrinsic.call] at hi
  · obtain ⟨c, -, hi⟩ := List.mem_flatMap.1 hi
    exact keepsLocals_saveValue c i hi
  · obtain ⟨e, -, hi⟩ := List.mem_flatMap.1 hi
    exact keepsLocals_saveLocal e.1 e.2 i hi
  · intro k slot h
    subst h
    simp [Intrinsic.call] at hi
  · exact keepsLocals_companionCode _ _ i hi
  · exact keepsLocals_defaultReturn ret i hi

/-! ## the code of a block with its frames -/

namespace Around

/-- the frame behind the call -/
def afterFrame (x : Around) (own : Insn) : Frame := x.frame.next own

/-- the frame at the handler of the call -/
def thrownFrame (x : Around) : Frame := ⟨x.frame.locals, [.ref throwableType]⟩

/-- the staging code up to its label -/
def stagingBody (x : Around) : List Insn :=
  [Intrinsic.exists.call, .branch .eq x.labels.staged, Intrinsic.beginStaging.call] ++
    (x.shape.window.reverse.flatMap stageValue ++ unstageFrom [] x.shape.window)

/-- the code that drops the staging frame, up to its label -/
def endingBody (skip : Label) : List Insn :=
  [Intrinsic.exists.call, .branch .eq skip, Intrinsic.endStaging.call]

section
variable (x : Around) (a : Analysis) (ret : Option Kind) (own : Insn) (entry : Frame)

def framedNoYield : FramedCode :=
  (x.afterFrame own).through (.label x.labels.noYield ::
    if x.site.unpatchable then endingBody x.labels.post else []) ++
  (x.afterFrame own).through [.label x.labels.post]

def framedAfter : FramedCode :=
  (x.afterFrame own).through (.label x.labels.after :: Intrinsic.isYielding.call ::
    .branch .eq x.labels.noYield :: saveCode a ret x.site x.frame x.shape) ++
  x.framedNoYield own

/-- what passes on an exception of the call -/
def framedHandler : FramedCode :=
  (x.afterFrame own).through [.jump x.labels.after] ++
  (x.thrownFrame.through (.label x.labels.handler :: endingBody x.labels.rethrow) ++
    x.thrownFrame.through [.label x.labels.rethrow, .throw])

def framedRethrow : FramedCode :=
  (if x.site.unpatchable then x.framedHandler own else []) ++ x.framedAfter a ret own

def framedInvoke : FramedCode :=
  x.frame.through [.label x.labels.invoke, own, .label x.labels.invokeEnd] ++
    x.framedRethrow a ret own

def framedCall : FramedCode :=
  x.frame.through (.label x.labels.call :: if x.site.unpatchable then x.stagingBody else []) ++
  ((if x.site.unpatchable then x.frame.through [.label x.labels.staged] else []) ++
    x.framedInvoke a ret own)

def framedResume : FramedCode :=
  entry.through (.label x.site.resume :: restoreCode x.site.unpatchable x.frame x.shape) ++
    x.framedCall a ret own

/-- the code of the block with its frames -/
def framed : FramedCode :=
  x.frame.through [.label x.labels.pre, .jump x.labels.call] ++ x.framedResume a ret own entry

end

section
variable (x : Around) (a : Analysis) (ret : Option Kind) (own : Insn) (entry : Frame)

theorem map_snd_framedNoYield : (x.framedNoYield own).map Prod.snd = x.fromNoYield := by
  unfold framedNoYield fromNoYield ending
  rw [List.map_append, Frame.map_snd_through, Frame.map_snd_through]
  split <;> rfl

theorem map_snd_framedRethrow :
    (x.framedRethrow a ret own).map Prod.snd = x.fromRethrow a ret := by
  have hafter : (x.framedAfter a ret own).map Prod.snd = x.fromAfter a ret := by
    unfold framedAfter fromAfter
    rw [List.map_append, Frame.map_snd_through, map_snd_framedNoYield]
    rfl
  unfold framedRethrow fromRethrow rethrowCode
  rw [List.map_append, hafter]
  split
  · unfold framedHandler
    simp only [List.map_append, Frame.map_snd_through]
    rfl
  · rfl

/-- the frames stand at the code of the block -/
theorem map_snd_framed :
    (x.framed a ret own entry).map Prod.snd = (Block.mk (some x) own).code a ret := by
  have hcall : (x.framedCall a ret own).map Prod.snd = x.fromCall a ret own := by
    unfold framedCall fromCall staging framedInvoke fromInvoke
    simp only [List.map_append, Frame.map_snd_through, map_snd_framedRethrow]
    split
    · unfold stagingBody stageCode
      rw [Frame.map_snd_through]
      simp
    · rfl
  unfold framed framedResume
  rw [List.map_append, List.map_append, Frame.map_snd_through, Frame.map_snd_through, hcall,
    Block.code_around]
  rfl

end

/-! ## what is asked of the call -/

/-- the call can stand in its frame, which can be saved and restored -/
structure Suits (x : Around) (a : Analysis) (own : Insn) (result : Option FieldType) (entry : Frame)
    (n : Nat) : Prop where
  sound : x.frame.Sound n
  definite : x.frame.Definite
  cuts : x.shape.Cuts x.frame
  call : ∃ kind callee, own = .invoke kind callee
  applied : x.frame.apply own = .ok ((⟨x.frame.locals, x.shape.below⟩ : Frame).pushResult result)
  result : x.shape.result = result.map FieldType.kind
  receiver : a.isStatic = false → ∃ c, x.frame.locals[0]? = some c ∧ c.kind? = some .ref
  entrySound : entry.Sound n
  entryStack : entry.stack = []
  slots : n ≤ 65536

/-- the labels of the block are reached with the frames that stand there -/
structure Accepted (x : Around) (own : Insn) (accepts : Label → Frame → Prop) : Prop where
  call : accepts x.labels.call x.frame
  staged : x.site.unpatchable = true → accepts x.labels.staged x.frame
  rethrow : x.site.unpatchable = true → accepts x.labels.rethrow x.thrownFrame
  after : accepts x.labels.after (x.afterFrame own)
  noYield : accepts x.labels.noYield (x.afterFrame own)
  post : accepts x.labels.post (x.afterFrame own)

section
variable {x : Around} {a : Analysis} {ret : Option Kind} {own : Insn} {result : Option FieldType}
  {entry : Frame} {n : Nat} {p : Program} {accepts : Label → Frame → Prop} {next : Frame → Prop}

theorem Suits.afterFrame_eq (h : x.Suits a own result entry n) :
    x.afterFrame own = (⟨x.frame.locals, x.shape.below⟩ : Frame).pushResult result :=
  Frame.next_eq h.applied

theorem Suits.sound_after (h : x.Suits a own result entry n) : (x.afterFrame own).Sound n := by
  rw [h.afterFrame_eq]
  exact h.sound.apply h.applied

theorem Suits.locals_after (h : x.Suits a own result entry n) :
    (x.afterFrame own).locals = x.frame.locals := by
  rw [h.afterFrame_eq]
  exact Frame.locals_pushResult _ _

theorem Suits.sound_thrown (h : x.Suits a own result entry n) : x.thrownFrame.Sound n := by
  refine ⟨h.sound.length, h.sound.wide, fun c hc => ?_⟩
  rw [List.mem_singleton.1 hc]
  exact ⟨.ref, rfl⟩

/-- every frame of the block is sound -/
theorem Suits.sound_framed (h : x.Suits a own result entry n) :
    ∀ e ∈ x.framed a ret own entry, ∀ f, e.1 = some f → f.Sound n := by
  intro e he
  unfold framed framedResume framedCall framedInvoke framedRethrow framedAfter framedNoYield at he
  simp only [List.mem_append] at he
  rcases he with he | he | he | he | he | he | he | he | he
  · exact h.sound.through e he
  · exact h.entrySound.through e he
  · exact h.sound.through e he
  · split at he
    · exact h.sound.through e he
    · exact absurd he (by simp)
  · exact h.sound.through e he
  · split at he
    · unfold framedHandler at he
      simp only [List.mem_append] at he
      rcases he with he | he | he
      · exact h.sound_after.through e he
      · exact h.sound_thrown.through e he
      · exact h.sound_thrown.through e he
    · exact absurd he (by simp)
  · exact h.sound_after.through e he
  · exact h.sound_after.through e he
  · exact h.sound_after.through e he

/-- from the call on the locals stay as they are -/
theorem Suits.locals_framedInvoke (h : x.Suits a own result entry n) :
    ∀ e ∈ x.framedInvoke a ret own, ∀ f, e.1 = some f → f.locals = x.frame.locals := by
  obtain ⟨kind, callee, rfl⟩ := h.call
  have hafter {is : List Insn} (his : ∀ i ∈ is, i.KeepsLocals) :
      ∀ e ∈ (x.afterFrame (.invoke kind callee)).through is, ∀ f, e.1 = some f →
        f.locals = x.frame.locals := by
    intro e he f hf
    rw [Frame.locals_through his e he f hf, h.locals_after]
  have hthrown {is : List Insn} (his : ∀ i ∈ is, i.KeepsLocals) :
      ∀ e ∈ x.thrownFrame.through is, ∀ f, e.1 = some f → f.locals = x.frame.locals :=
    Frame.locals_through his
  intro e he
  unfold framedInvoke framedRethrow framedAfter framedNoYield at he
  simp only [List.mem_append] at he
  rcases he with he | he | he | he | he
  · exact Frame.locals_through (by simp) e he
  · split at he
    · unfold framedHandler at he
      simp only [List.mem_append] at he
      rcases he with he | he | he
      · exact hafter (by simp [Insn.KeepsLocals]) e he
      · exact hthrown (by simp [Insn.KeepsLocals, endingBody, Intrinsic.call]) e he
      · exact hthrown (by simp [Insn.KeepsLocals]) e he
    · exact absurd he (by simp)
  · refine hafter (fun i hi => ?_) e he
    simp only [List.mem_cons] at hi
    rcases hi with rfl | rfl | rfl | hi
    · exact fun _ _ h => absurd h (by simp)
    · exact fun _ _ h => absurd h (by simp [Intrinsic.call])
    · exact fun _ _ h => absurd h (by simp)
    · exact keepsLocals_saveCode _ _ _ _ _ i hi
  · refine hafter ?_ e he
    split <;> simp [Insn.KeepsLocals, endingBody, Intrinsic.call]
  · exact hafter (by simp [Insn.KeepsLocals]) e he

/-! ## the block flows -/

theorem no_targets {i : Insn} {f : Frame} (h : i.targets = []) : ∀ l ∈ i.targets, accepts l f := by
  rw [h]
  simp

open FramedCode

theorem flows_label {f : Frame} {l : Label} (h : next f) :
    Flows p accepts next (f.through [.label l]) :=
  .step rfl (no_targets rfl) (fun _ _ => h) trivial

/-- a staging frame is dropped if there is one -/
theorem flows_endingBody {f : Frame} {skip : Label} (haccepts : accepts skip f) (h : next f) :
    Flows p accepts next (f.through (endingBody skip)) := by
  refine .step (g := f.push .int) rfl (no_targets rfl) (by simp) ?_
  refine .step (g := f) rfl (fun l hl => ?_) (by simp) ?_
  · rw [List.mem_singleton.1 hl]
    exact haccepts
  · exact .step rfl (no_targets rfl) (fun _ _ => h) trivial

theorem flows_defaultReturn (f : Frame) (ret : Option Kind) :
    Flows p accepts next (f.through (defaultReturn ret)) := by
  cases ret with
  | none => exact .step rfl (no_targets rfl) (fun _ h => absurd h (by simp [Insn.fallsThrough])) trivial
  | some k =>
    have hzero : (Frame.zeroCategory k).kind? = some k := by cases k <;> rfl
    have hret : (f.push (Frame.zeroCategory k)).apply (.ret (some k)) = .ok f :=
      Frame.popKinds_push hzero
    exact .straight (.zeroInsn f k) (by simp) (.step hret (no_targets rfl)
      (fun _ h => absurd h (by simp [Insn.fallsThrough])) trivial)

theorem enters_framedNoYield (x : Around) (own : Insn) :
    Enters p next (x.framedNoYield own) (x.afterFrame own) := by
  unfold framedNoYield
  rw [enters_append]
  exact enters_through (by simp)

theorem flows_framedNoYield (hl : x.Accepted own accepts) (hnext : next (x.afterFrame own)) :
    Flows p accepts next (x.framedNoYield own) := by
  unfold framedNoYield
  refine .append ?_ (flows_label hnext)
  have henter : Enters p next ((x.afterFrame own).through [.label x.labels.post])
      (x.afterFrame own) := enters_through (by simp)
  split
  · exact .step rfl (no_targets rfl) (by simp [endingBody]) (flows_endingBody hl.post henter)
  · exact flows_label henter

theorem enters_framedAfter (x : Around) (a : Analysis) (ret : Option Kind) (own : Insn) :
    Enters p next (x.framedAfter a ret own) (x.afterFrame own) := by
  unfold framedAfter
  rw [enters_append]
  exact enters_through (by simp)

theorem Suits.flows_framedAfter (h : x.Suits a own result entry n) (hl : x.Accepted own accepts)
    (hnext : next (x.afterFrame own)) : Flows p accepts next (x.framedAfter a ret own) := by
  unfold framedAfter
  refine .append ?_ (flows_framedNoYield hl hnext)
  have hsaved : (x.afterFrame own).Runs (Frame.savedCode a x.site x.frame x.shape)
      ⟨x.frame.locals, []⟩ := by
    rw [h.afterFrame_eq]
    exact .savedCode h.sound h.cuts h.slots h.result h.receiver
  have hreturn : defaultReturn ret ≠ [] := by cases ret <;> simp [defaultReturn]
  refine .step rfl (no_targets rfl) (by simp) ?_
  refine .step (g := (x.afterFrame own).push .int) rfl (no_targets rfl) (by simp) ?_
  refine .step (g := x.afterFrame own) rfl (fun l hl' => ?_)
    (fun _ _ => enters_framedNoYield x own) ?_
  · rw [List.mem_singleton.1 hl']
    exact hl.noYield
  · rw [Frame.saveCode_eq]
    exact .straight hsaved (fun hnil => absurd hnil hreturn) (flows_defaultReturn _ ret)

theorem flows_framedHandler (hl : x.Accepted own accepts) (hu : x.site.unpatchable = true) :
    Flows p accepts next (x.framedHandler own) := by
  unfold framedHandler
  refine .append (.step (g := x.afterFrame own) rfl (fun l hl' => ?_)
    (fun _ h => absurd h (by simp [Insn.fallsThrough])) trivial) (.append ?_ ?_)
  · rw [List.mem_singleton.1 hl']
    exact hl.after
  · exact .step rfl (no_targets rfl) (by simp [endingBody])
      (flows_endingBody (hl.rethrow hu) (enters_through (by simp)))
  · exact .step rfl (no_targets rfl) (by simp) (.step (g := ⟨x.frame.locals, []⟩) rfl
      (no_targets rfl) (fun _ h => absurd h (by simp [Insn.fallsThrough])) trivial)

theorem Suits.flows_framedInvoke (h : x.Suits a own result entry n) (hl : x.Accepted own accepts)
    (hnext : next (x.afterFrame own)) : Flows p accepts next (x.framedInvoke a ret own) := by
  obtain ⟨kind, callee, hcall⟩ := h.call
  have hafter : Flows p accepts next (x.framedAfter a ret own) := h.flows_framedAfter hl hnext
  have hown : x.frame.apply own = .ok (x.afterFrame own) := by
    rw [h.afterFrame_eq]
    exact h.applied
  have henter : Enters p next (x.framedRethrow a ret own) (x.afterFrame own) := by
    unfold framedRethrow framedHandler
    split
    · rw [List.append_assoc, enters_append]
      exact enters_through (by simp)
    · exact enters_framedAfter x a ret own
  unfold framedInvoke
  refine .append ?_ ?_
  · exact .step rfl (no_targets rfl) (by simp) (.step hown (no_targets (by rw [hcall]; rfl))
      (by simp) (flows_label henter))
  · unfold framedRethrow
    split
    · rename_i hu
      exact .append (flows_framedHandler hl hu) hafter
    · exact hafter

theorem Suits.flows_framedCall (h : x.Suits a own result entry n) (hl : x.Accepted own accepts)
    (hnext : next (x.afterFrame own)) : Flows p accepts next (x.framedCall a ret own) := by
  have hinvoke : Flows p accepts next (x.framedInvoke a ret own) := h.flows_framedInvoke hl hnext
  have henter : Enters p next (x.framedInvoke a ret own) x.frame := by
    unfold framedInvoke
    rw [enters_append]
    exact enters_through (by simp)
  unfold framedCall
  split
  · rename_i hu
    have hstaged := Frame.Runs.stageCode h.sound h.cuts
    have hlabel : Enters p (Enters p next (x.framedInvoke a ret own))
        (x.frame.through [.label x.labels.staged]) x.frame := enters_through (by simp)
    refine .append ?_ (.append (flows_label henter) hinvoke)
    unfold stagingBody
    refine .step rfl (no_targets rfl) (by simp) ?_
    refine .step (g := x.frame.push .int) rfl (no_targets rfl) (by simp) ?_
    refine .step (g := x.frame) rfl (fun l hl' => ?_) (by simp) ?_
    · rw [List.mem_singleton.1 hl']
      exact hl.staged hu
    · refine .step (g := x.frame) rfl (no_targets rfl) (fun _ _ => ?_) ?_
      · rw [enters_append]
        exact hlabel
      · refine .of_runs hstaged ?_
        rw [enters_append]
        exact hlabel
  · exact .append (flows_label henter) hinvoke

/-- **The block flows**: it is entered with the frame of the call and left with the frame behind it -/
theorem Suits.flows (h : x.Suits a own result entry n) (hl : x.Accepted own accepts)
    (hnext : next (x.afterFrame own)) : Flows p accepts next (x.framed a ret own entry) := by
  have hcall : Flows p accepts next (x.framedCall a ret own) := h.flows_framedCall hl hnext
  obtain ⟨g, hrestored, habsorbs⟩ := Frame.Runs.restoreCode (p := p) x.site.unpatchable h.sound
    h.definite h.cuts h.entrySound.length h.entryStack h.slots
  have henter : Enters p next (x.framedCall a ret own) g := ⟨x.frame, rfl, habsorbs⟩
  unfold framed framedResume
  refine .append ?_ (.append ?_ hcall)
  · refine .step rfl (no_targets rfl) (by simp) (.step (g := x.frame) rfl (fun l hl' => ?_)
      (fun _ h => absurd h (by simp [Insn.fallsThrough])) trivial)
    rw [List.mem_singleton.1 hl']
    exact hl.call
  · have hrun : entry.Runs (.label x.site.resume ::
        restoreCode x.site.unpatchable x.frame x.shape) g := .cons rfl rfl hrestored
    exact .of_runs hrun henter

/-! ## the frames at the labels of a block -/

end

/-- the frames that stand at the labels of a block and at the call -/
structure FramedAt (x : Around) (a : Analysis) (ret : Option Kind) (own : Insn) (entry : Frame)
    (fc : FramedCode) : Prop where
  pre : fc[0]? = some (some x.frame, .label x.labels.pre)
  resume : fc[2]? = some (some entry, .label x.site.resume)
  call : fc[3 + (restoreCode x.site.unpatchable x.frame x.shape).length]? =
    some (some x.frame, .label x.labels.call)
  staged : x.site.unpatchable = true →
    fc[x.ownAt - 2]? = some (some x.frame, .label x.labels.staged)
  handler : x.site.unpatchable = true →
    fc[x.ownAt + 3]? = some (some x.thrownFrame, .label x.labels.handler)
  rethrow : x.site.unpatchable = true →
    fc[x.ownAt + 7]? = some (some x.thrownFrame, .label x.labels.rethrow)
  after : fc[x.afterAt]? = some (some (x.afterFrame own), .label x.labels.after)
  noYield : fc[x.noYieldAt a ret]? = some (some (x.afterFrame own), .label x.labels.noYield)
  post : fc[x.noYieldAt a ret + x.ending.length]? =
    some (some (x.afterFrame own), .label x.labels.post)
  copy : fc[x.ownAt]? = some (some x.frame, own)
  /-- from the label in front of the call on -/
  onward : fc.drop (x.ownAt - 1) = x.framedInvoke a ret own

section
variable (x : Around) (a : Analysis) (ret : Option Kind) (own : Insn) (entry : Frame)

theorem getElem?_of_drop {α : Type} {fc rest : List α} {n : Nat} {e : α}
    (h : fc.drop n = e :: rest) : fc[n]? = some e := by
  have hhead : (fc.drop n)[0]? = fc[n + 0]? := List.getElem?_drop
  rw [h] at hhead
  exact hhead.symm

theorem framedAt : x.FramedAt a ret own entry (x.framed a ret own entry) := by
  generalize hc : x.framed a ret own entry = fc
  have hat : x.ownAt = 5 + (restoreCode x.site.unpatchable x.frame x.shape).length +
    x.staging.length := rfl
  have hafterAt : x.afterAt = x.ownAt + 2 + (rethrowCode x.site x.labels).length := rfl
  have hnoYieldAt : x.noYieldAt a ret = x.afterAt + 3 +
    (saveCode a ret x.site x.frame x.shape).length := rfl
  have hresume : fc.drop 2 = x.framedResume a ret own entry := by
    rw [← hc]
    rfl
  have hcall : fc.drop (3 + (restoreCode x.site.unpatchable x.frame x.shape).length) =
      x.framedCall a ret own := by
    have hdrop := Layout.drop_add_length _ _ hresume
    rw [Frame.length_through, List.length_cons] at hdrop
    rw [← hdrop]
    congr 1
    omega
  have hinvoke : fc.drop (x.ownAt - 1) = x.framedInvoke a ret own ∧
      (x.site.unpatchable = true →
        fc[x.ownAt - 2]? = some (some x.frame, .label x.labels.staged)) := by
    have hdrop := Layout.drop_add_length _ _ hcall
    rw [Frame.length_through] at hdrop
    by_cases hu : x.site.unpatchable = true
    · have hlen : x.staging.length = x.stagingBody.length + 1 := by
        unfold staging stagingBody stageCode
        rw [if_pos hu]
        simp
        omega
      simp only [hu, if_true, List.length_cons] at hdrop
      rw [hu] at hat
      have hstaged : fc.drop (x.ownAt - 2) = (some x.frame, .label x.labels.staged) ::
          x.framedInvoke a ret own := by
        rw [show (some x.frame, Insn.label x.labels.staged) :: x.framedInvoke a ret own =
          x.frame.through [.label x.labels.staged] ++ x.framedInvoke a ret own from rfl, ← hdrop]
        congr 1
        omega
      refine ⟨?_, fun _ => getElem?_of_drop hstaged⟩
      have hnext := Layout.drop_add_length [(some x.frame, Insn.label x.labels.staged)]
        (x.framedInvoke a ret own) hstaged
      rw [← hnext]
      congr 1
      show x.ownAt - 1 = x.ownAt - 2 + 1
      omega
    · have hlen : x.staging.length = 0 := by
        unfold staging
        rw [if_neg hu]
        rfl
      simp only [hu, Bool.false_eq_true, if_false, List.length_cons, List.length_nil,
        List.nil_append] at hdrop
      simp only [hu] at hat
      refine ⟨?_, fun h => absurd h hu⟩
      rw [← hdrop]
      congr 1
      omega
  obtain ⟨hinvoke, hstaged⟩ := hinvoke
  have hrethrow : fc.drop (x.ownAt + 2) = x.framedRethrow a ret own := by
    have hdrop := Layout.drop_add_length _ _ hinvoke
    rw [← hdrop]
    congr 1
    show x.ownAt + 2 = x.ownAt - 1 + 3
    omega
  have hafter : fc.drop x.afterAt = x.framedAfter a ret own ∧ (x.site.unpatchable = true →
      fc[x.ownAt + 3]? = some (some x.thrownFrame, .label x.labels.handler) ∧
      fc[x.ownAt + 7]? = some (some x.thrownFrame, .label x.labels.rethrow)) := by
    unfold framedRethrow at hrethrow
    unfold rethrowCode at hafterAt
    by_cases hu : x.site.unpatchable = true
    · rw [if_pos hu] at hrethrow hafterAt
      have hdrop := Layout.drop_add_length _ _ hrethrow
      refine ⟨?_, fun _ => ⟨?_, ?_⟩⟩
      · rw [← hdrop, hafterAt]
        rfl
      · have hhandler : (fc.drop (x.ownAt + 2))[1]? = fc[x.ownAt + 2 + 1]? := List.getElem?_drop
        rw [hrethrow] at hhandler
        exact hhandler.symm
      · have hlabel : (fc.drop (x.ownAt + 2))[5]? = fc[x.ownAt + 2 + 5]? := List.getElem?_drop
        rw [hrethrow] at hlabel
        exact hlabel.symm
    · rw [if_neg hu, List.nil_append] at hrethrow
      rw [if_neg hu] at hafterAt
      exact ⟨by rw [hafterAt]; exact hrethrow, fun h => absurd h hu⟩
  obtain ⟨hafter, hhandler⟩ := hafter
  have hnoYield : fc.drop (x.noYieldAt a ret) = x.framedNoYield own := by
    have hdrop := Layout.drop_add_length _ _ hafter
    rw [Frame.length_through, List.length_cons, List.length_cons, List.length_cons] at hdrop
    rw [← hdrop, hnoYieldAt]
    congr 1
    omega
  have hpost : fc.drop (x.noYieldAt a ret + x.ending.length) =
      (x.afterFrame own).through [.label x.labels.post] := by
    have hdrop := Layout.drop_add_length _ _ hnoYield
    rw [Frame.length_through] at hdrop
    rw [← hdrop]
    unfold ending
    split <;> rfl
  refine ⟨?_, getElem?_of_drop hresume, getElem?_of_drop hcall, hstaged,
    fun hu => (hhandler hu).1, fun hu => (hhandler hu).2, getElem?_of_drop hafter,
    getElem?_of_drop hnoYield, getElem?_of_drop hpost, ?_, hinvoke⟩
  · rw [← hc]
    rfl
  · have hown : (fc.drop (x.ownAt - 1))[1]? = fc[x.ownAt - 1 + 1]? := List.getElem?_drop
    rw [hinvoke, show x.ownAt - 1 + 1 = x.ownAt by omega] at hown
    exact hown.symm

end

end Around
end Resumable
