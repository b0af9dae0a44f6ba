import Resumable.Proofs.FramedPrologue
import Resumable.Proofs.Regions

/-!
# The frames of woven code

Woven code has frames block by block.  What flows out of an instruction of a block is below the frames of
the block, or flows on into the next one.

* `Method.FlowsAt` : what flows out of an instruction of a method, and to which frames;
* `Method.Framed.flowsAt`, `Method.Framed.of_flows` : frames are assigned if it does so everywhere;
* `Layout.framed` : the woven code with its frames;
* `Layout.Laid.drop_framed` : where the frames of a block stand.
-/

namespace Resumable

/-! ## frames of a method -/

/-- what flows out of an instruction is below the frames of where it arrives -/
structure Method.FlowsAt (m : Method) (p : Program) (frames : List (Option Frame)) (n : Nat)
    (i : Insn) (f g : Frame) : Prop where
  applied : f.apply i = .ok g
  jumps : ∀ lab ∈ i.targets, ∃ k, labelPosition lab m.code = some k ∧ Flow.Below p frames (k, g)
  next : i.fallsThrough = true → Flow.Below p frames (n + 1, g)
  handlers : ∀ t ∈ m.tryCatches, t.Protects m.code n → ∃ k, labelPosition t.handler m.code = some k ∧
    Flow.Below p frames (k, ⟨f.locals, [.ref (t.catchType.getD throwableType)]⟩)

section
variable {m : Method} {p : Program} {entry f : Frame} {frames : List (Option Frame)} {n : Nat}
  {i : Insn}

theorem Method.Framed.length (h : m.Framed p entry frames) : frames.length = m.code.length := by
  obtain ⟨handlers, -, h⟩ := h
  exact h.length

theorem Method.Framed.sound (h : m.Framed p entry frames) :
    Flow.AllSound entry.locals.length frames := by
  obtain ⟨handlers, -, h⟩ := h
  exact h.sound

theorem Method.Framed.below_entry (h : m.Framed p entry frames) : Flow.Below p frames (0, entry) := by
  obtain ⟨handlers, -, h⟩ := h
  exact h.entry

theorem Method.Framed.tableDefined (h : m.Framed p entry frames) : m.TableDefined := by
  obtain ⟨handlers, hhandlers, -⟩ := h
  intro t ht
  obtain ⟨r, -, hr⟩ := (Flow.mapM_ok hhandlers).1 t ht
  obtain ⟨hstart, hstop, hhandler, -⟩ := Flow.handler_ok hr
  exact ⟨⟨_, hstart⟩, ⟨_, hstop⟩, _, hhandler⟩

theorem Method.Framed.flowsAt (h : m.Framed p entry frames) (hi : m.code[n]? = some i)
    (hf : frames[n]? = some (some f)) : ∃ g, m.FlowsAt p frames n i f g := by
  obtain ⟨handlers, hhandlers, h⟩ := h
  obtain ⟨es, hes, hbelow⟩ := h.closed n i f hi hf
  obtain ⟨g, hedges⟩ := Flow.edges_ok hes
  refine ⟨g, hedges.applied, fun lab hlab => ?_, fun hfalls => hbelow _ (hedges.next hfalls).2,
    fun t ht hprotects => ?_⟩
  · obtain ⟨k, hk, hmem⟩ := hedges.jumps lab hlab
    exact ⟨k, hk, hbelow _ hmem⟩
  · obtain ⟨r, hr, hok⟩ := (Flow.mapM_ok hhandlers).1 t ht
    obtain ⟨hstart, hstop, hhandler, -⟩ := Flow.handler_ok hok
    obtain ⟨start, stop, hs, ht', h1, h2⟩ := hprotects
    obtain rfl := Option.some.inj (hstart.symm.trans hs)
    obtain rfl := Option.some.inj (hstop.symm.trans ht')
    exact ⟨_, hhandler, Flow.handler_caught hok ▸ hbelow _ (hedges.handlers r hr h1 h2)⟩

/-- **Frames are assigned** to a method if everything that flows out of an instruction is below them -/
theorem Method.Framed.of_flows {fc : FramedCode} (hcode : fc.map Prod.snd = m.code)
    (htable : m.TableDefined)
    (hsound : ∀ e ∈ fc, ∀ f, e.1 = some f → f.Sound entry.locals.length)
    (hentry : Flow.Below p (fc.map Prod.fst) (0, entry))
    (hflows : ∀ n f i, fc[n]? = some (some f, i) → ∃ g, m.FlowsAt p (fc.map Prod.fst) n i f g) :
    m.Framed p entry (fc.map Prod.fst) := by
  obtain ⟨handlers, hhandlers⟩ : ∃ handlers, m.tryCatches.mapM (Flow.handler m.code) = .ok handlers := by
    refine Layout.exists_mapM_ok fun t ht => ?_
    obtain ⟨⟨start, hstart⟩, ⟨stop, hstop⟩, target, htarget⟩ := htable t ht
    unfold Flow.handler Flow.tablePosition
    rw [hstart, hstop, htarget]
    exact ⟨_, rfl⟩
  refine ⟨handlers, hhandlers, .of_flows hcode hsound hentry (fun n f i he => ?_)
    fun n f i he r hr hstart hstop => ?_⟩
  · obtain ⟨g, hg⟩ := hflows n f i he
    exact ⟨g, hg.applied, hg.jumps, hg.next⟩
  · obtain ⟨g, hg⟩ := hflows n f i he
    obtain ⟨t, ht, hok⟩ := (Flow.mapM_ok hhandlers).2 r hr
    obtain ⟨hs, he, htarget, -⟩ := Flow.handler_ok hok
    obtain ⟨k, hk, hbelow⟩ := hg.handlers t ht ⟨_, _, hs, he, hstart, hstop⟩
    obtain rfl := Option.some.inj (htarget.symm.trans hk)
    rw [Flow.handler_caught hok]
    exact hbelow

end

/-! ## the woven code with its frames -/

/-- the code of a block with its frames; the instruction keeps its own -/
def Block.framed (a : Analysis) (ret : Option Kind) (entry : Frame) (b : Block) (f : Option Frame) :
    FramedCode :=
  b.around.elim [(f, b.own)] fun x => x.framed a ret b.own entry

theorem Block.map_snd_framed (a : Analysis) (ret : Option Kind) (entry : Frame) (b : Block)
    (f : Option Frame) : (b.framed a ret entry f).map Prod.snd = b.code a ret := by
  obtain ⟨around, own⟩ := b
  cases around with
  | none => rfl
  | some x => exact x.map_snd_framed a ret own entry

namespace Layout

variable {a : Analysis} {m m' : Method} {l : Layout a m} {n k q : Nat} {b : Block} {x : Around}

/-- the woven code with its frames -/
def framed (l : Layout a m) (entry : Frame) : FramedCode :=
  l.framedPrologue entry ++
    (l.blocks.zip a.frames).flatMap fun e => e.1.framed a l.ret entry e.2

section
variable {entry f : Frame} {fs : Option Frame} {e : Option Frame × Insn} {j : Nat}

theorem map_snd_blocks (entry : Frame) {ret : Option Kind} {bs : List Block}
    {fs : List (Option Frame)} (h : bs.length ≤ fs.length) :
    ((bs.zip fs).flatMap fun e => e.1.framed a ret entry e.2).map Prod.snd =
      bs.flatMap (Block.code a ret) := by
  have hfst : (bs.zip fs).map Prod.fst = bs := List.map_fst_zip h
  rw [List.map_flatMap]
  conv => rhs; rw [← hfst]
  rw [List.flatMap_map]
  congr 1
  funext e
  exact Block.map_snd_framed a ret entry e.1 e.2

theorem Laid.map_snd_framed (h : l.Laid m') (hframes : a.frames.length = m.code.length)
    (entry : Frame) : (l.framed entry).map Prod.snd = m'.code := by
  unfold framed
  rw [List.map_append, map_snd_framedPrologue, map_snd_blocks entry
    (Nat.le_of_eq (by rw [h.length_blocks, hframes])), h.code_eq]
  rfl

theorem length_framedPrologue (l : Layout a m) (entry : Frame) :
    (l.framedPrologue entry).length = l.start 0 := by
  rw [← List.length_map (f := Prod.snd), map_snd_framedPrologue]
  rfl

theorem length_framed_block (l : Layout a m) (hb : l.blocks[n]? = some b) (entry : Frame)
    (fs : Option Frame) : l.start n + (b.framed a l.ret entry fs).length = l.start (n + 1) := by
  rw [start_succ hb, ← List.length_map (f := Prod.snd), Block.map_snd_framed]

/-- the frames of a block stand where its code stands -/
theorem Laid.drop_framed (h : l.Laid m') (hframes : a.frames.length = m.code.length)
    (entry : Frame) (hb : l.blocks[n]? = some b) (hf : a.frames[n]? = some fs) :
    (l.framed entry).drop (l.start n) =
      b.framed a l.ret entry fs ++ (l.framed entry).drop (l.start (n + 1)) := by
  have hzip : (l.blocks.zip a.frames)[n]? = some (b, fs) := by
    rw [List.getElem?_zip_eq_some]
    exact ⟨hb, hf⟩
  obtain ⟨hn, heq⟩ := List.getElem?_eq_some_iff.1 hzip
  have hsplit : l.blocks.zip a.frames = (l.blocks.zip a.frames).take n ++
      (b, fs) :: (l.blocks.zip a.frames).drop (n + 1) := by
    rw [← heq, ← List.drop_eq_getElem_cons hn, List.take_append_drop]
  have htake : (l.blocks.zip a.frames).take n = (l.blocks.take n).zip (a.frames.take n) :=
    List.take_zipWith
  have hlength : (l.framedPrologue entry ++ ((l.blocks.zip a.frames).take n).flatMap
      fun e => e.1.framed a l.ret entry e.2).length = l.start n := by
    rw [List.length_append, length_framedPrologue, htake, ← List.length_map (f := Prod.snd),
      map_snd_blocks entry (Nat.le_of_eq (by
        rw [List.length_take, List.length_take, h.length_blocks, hframes]))]
    rfl
  have hall : l.framed entry = (l.framedPrologue entry ++ ((l.blocks.zip a.frames).take n).flatMap
      fun e => e.1.framed a l.ret entry e.2) ++ (b.framed a l.ret entry fs ++
        ((l.blocks.zip a.frames).drop (n + 1)).flatMap fun e => e.1.framed a l.ret entry e.2) := by
    unfold framed
    conv => lhs; rw [hsplit]
    rw [List.flatMap_append, List.flatMap_cons, List.append_assoc]
  have hdrop : (l.framed entry).drop (l.start n) = b.framed a l.ret entry fs ++
      ((l.blocks.zip a.frames).drop (n + 1)).flatMap fun e => e.1.framed a l.ret entry e.2 := by
    rw [hall, ← hlength, List.drop_left]
  rw [← length_framed_block l hb entry fs, drop_add_length _ _ hdrop]
  exact hdrop

theorem Laid.getElem?_framed (h : l.Laid m') (hframes : a.frames.length = m.code.length)
    (hb : l.blocks[n]? = some b) (hf : a.frames[n]? = some fs)
    (hj : j < (b.framed a l.ret entry fs).length) :
    (l.framed entry)[l.start n + j]? = (b.framed a l.ret entry fs)[j]? := by
  rw [← List.getElem?_drop, h.drop_framed hframes entry hb hf, List.getElem?_append_left hj]

theorem getElem?_framed_prologue (hj : j < l.start 0) :
    (l.framed entry)[j]? = (l.framedPrologue entry)[j]? := by
  rw [← length_framedPrologue l entry] at hj
  unfold framed
  rw [List.getElem?_append_left hj]

end

/-! ## what flows on -/

section
variable {p : Program} {entry f g : Frame} {fc d : FramedCode} {s j : Nat} {i : Insn}

theorem below_of_getElem? (h : d[j]? = some (some f, i)) :
    Flow.Below p (d.map Prod.fst) (j, f) := by
  refine ⟨f, ?_, .refl p f⟩
  rw [List.getElem?_map, h]
  rfl

/-- what may enter the rest of a piece is below the frame there -/
theorem below_of_enters (hpiece : d.drop s = fc ++ d.drop (s + fc.length)) (hj : j ≤ fc.length)
    (h : FramedCode.Enters p (fun f => Flow.Below p (d.map Prod.fst) (s + fc.length, f))
      (fc.drop j) f) : Flow.Below p (d.map Prod.fst) (s + j, f) := by
  rcases Nat.lt_or_ge j fc.length with hlt | hge
  · rw [List.drop_eq_getElem_cons hlt] at h
    obtain ⟨g, hg, habsorbs⟩ := h
    refine ⟨g, ?_, habsorbs⟩
    rw [List.getElem?_map, ← List.getElem?_drop, hpiece, List.getElem?_append_left hlt,
      List.getElem?_eq_getElem hlt, Option.map_some, hg]
  · obtain rfl : j = fc.length := Nat.le_antisymm hj hge
    rw [List.drop_length] at h
    exact h

/-- what flows out of an instruction of a piece -/
theorem flows_piece {accepts : Label → Frame → Prop}
    (hpiece : d.drop s = fc ++ d.drop (s + fc.length))
    (hflows : FramedCode.Flows p accepts
      (fun f => Flow.Below p (d.map Prod.fst) (s + fc.length, f)) fc)
    (he : fc[j]? = some (some f, i)) :
    ∃ g, f.apply i = .ok g ∧ (∀ lab ∈ i.targets, accepts lab g) ∧
      (i.fallsThrough = true → Flow.Below p (d.map Prod.fst) (s + j + 1, g)) := by
  have hlt := (List.getElem?_eq_some_iff.1 he).1
  obtain ⟨g, happly, htargets, hnext⟩ := hflows.get he
  refine ⟨g, happly, htargets, fun hfalls => ?_⟩
  rw [Nat.add_assoc]
  exact below_of_enters hpiece hlt (hnext hfalls)

end

end Layout
end Resumable
