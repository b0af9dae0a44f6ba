import Resumable.Proofs.Segment
import Resumable.Weave.Method

/-!
# The layout of woven code

Woven code is the prologue followed by one block for each instruction of the method: the instruction
itself with what is put around it, which is nothing unless it is a reachable call of a restore point.
Everything that is said about positions in woven code is said in terms of these blocks.

* `sitesFrom_sound`, `find?_sites` : the sites are the calls of restore points, found by position;
* `Block`, `Lays` : the blocks of a list of instructions;
* `Block.pieces` : the code of a block, and what of it was put in;
* `weaveFrom_ok` : weaving lays out such blocks;
* `Woven.start`, `Layout` : where the blocks of a woven method stand.
-/

namespace Resumable

/-! ## sites -/

/-- the instruction is a call of a restore point -/
def Analysis.isSite (a : Analysis) : Insn → Bool
  | .invoke _ callee => decide (callee ∈ a.restorePoints)
  | _ => false

section
variable {a : Analysis} {base : UInt32} {index position : Nat} {is : List Insn} {s : Site}

theorem sitesFrom_cons (a : Analysis) (base : UInt32) (index position : Nat) (i : Insn)
    (is : List Insn) :
    sitesFrom a base index position (i :: is) =
      match i with
      | .invoke kind callee =>
        if callee ∈ a.restorePoints then
          { index, position, kind, callee
            unpatchable := decide (callee ∈ a.unpatchable)
            frame := (a.frames[position]?).join
            resume := freshLabel base index } :: sitesFrom a base (index + 1) (position + 1) is
        else sitesFrom a base index (position + 1) is
      | _ => sitesFrom a base index (position + 1) is := rfl

/-- what a site says about its call -/
structure Site.Describes (s : Site) (a : Analysis) (base : UInt32) (i : Insn) : Prop where
  call : i = .invoke s.kind s.callee
  listed : s.callee ∈ a.restorePoints
  unpatchable : s.unpatchable = decide (s.callee ∈ a.unpatchable)
  frame : s.frame = (a.frames[s.position]?).join
  resume : s.resume = freshLabel base s.index

/-- a site is a call of a restore point, numbered by the calls before it -/
theorem sitesFrom_sound (hs : s ∈ sitesFrom a base index position is) :
    ∃ j i, is[j]? = some i ∧ s.position = position + j ∧
      s.index = index + (is.take j).countP a.isSite ∧ s.Describes a base i := by
  induction is generalizing index position with
  | nil => exact absurd hs (by simp [sitesFrom])
  | cons i is ih =>
    have skip (hi : a.isSite i = false) (hs : s ∈ sitesFrom a base index (position + 1) is) :
        ∃ j i', (i :: is)[j]? = some i' ∧ s.position = position + j ∧
          s.index = index + ((i :: is).take j).countP a.isSite ∧ s.Describes a base i' := by
      obtain ⟨j, i', hj, hp, hn, hd⟩ := ih hs
      refine ⟨j + 1, i', hj, by omega, ?_, hd⟩
      rw [List.take_succ_cons, List.countP_cons, hi, hn]
      rfl
    rw [sitesFrom_cons] at hs
    split at hs
    · rename_i kind callee
      by_cases hc : callee ∈ a.restorePoints
      · rw [if_pos hc] at hs
        rcases List.mem_cons.1 hs with rfl | hs
        · exact ⟨0, _, rfl, rfl, rfl, rfl, hc, rfl, rfl, rfl⟩
        · obtain ⟨j, i', hj, hp, hn, hd⟩ := ih hs
          refine ⟨j + 1, i', hj, by omega, ?_, hd⟩
          rw [List.take_succ_cons, List.countP_cons, hn]
          simp only [Analysis.isSite, hc, decide_true, if_true]
          omega
      · rw [if_neg hc] at hs
        exact skip (by simp only [Analysis.isSite, hc, decide_false]) hs
    · rename_i hi
      refine skip ?_ hs
      cases i with
      | invoke kind callee => exact absurd rfl (hi kind callee)
      | _ => rfl

/-- every call of a restore point is a site -/
theorem sitesFrom_complete {j : Nat} {i : Insn} (hj : is[j]? = some i) (hi : a.isSite i = true) :
    ∃ s ∈ sitesFrom a base index position is, s.position = position + j := by
  induction is generalizing index position j with
  | nil => exact absurd hj (by simp)
  | cons i' is ih =>
    rw [sitesFrom_cons]
    cases j with
    | zero =>
      obtain rfl : i' = i := by simpa using hj
      cases i' with
      | invoke kind callee =>
        have hc : callee ∈ a.restorePoints := by simpa [Analysis.isSite] using hi
        simp only [hc, if_true]
        exact ⟨_, List.mem_cons_self, rfl⟩
      | _ => exact absurd hi (by simp [Analysis.isSite])
    | succ j =>
      have hrest (index : Nat) : ∃ s ∈ sitesFrom a base index (position + 1) is,
          s.position = position + (j + 1) := by
        obtain ⟨s, hs, hp⟩ := ih hj
        exact ⟨s, hs, by omega⟩
      split
      · split
        · obtain ⟨s, hs, hp⟩ := hrest (index + 1)
          exact ⟨s, List.mem_cons_of_mem _ hs, hp⟩
        · exact hrest index
      · exact hrest index

/-- sites stand one after another and are numbered in this order -/
theorem sitesFrom_pairwise :
    (sitesFrom a base index position is).Pairwise fun s t =>
      s.position < t.position ∧ s.index < t.index := by
  induction is generalizing index position with
  | nil => exact .nil
  | cons i is ih =>
    rw [sitesFrom_cons]
    split
    · split
      · refine List.pairwise_cons.2 ⟨fun t ht => ?_, ih⟩
        obtain ⟨j, i, -, hp, hn, -⟩ := sitesFrom_sound ht
        exact ⟨by show position < _; omega, by show index < _; omega⟩
      · exact ih
    · exact ih

end

/-- a site is the one that is found at its position -/
theorem find?_of_pairwise {sites : List Site} {s : Site}
    (hp : sites.Pairwise fun s t => s.position < t.position ∧ s.index < t.index)
    (hs : s ∈ sites) : (sites.find? fun t => t.position == s.position) = some s := by
  induction sites with
  | nil => exact absurd hs (by simp)
  | cons t ts ih =>
    obtain ⟨ht, hts⟩ := List.pairwise_cons.1 hp
    rcases List.mem_cons.1 hs with rfl | hs
    · rw [List.find?_cons_of_pos (by simp)]
    · have hlt := (ht s hs).1
      rw [List.find?_cons_of_neg (by simp; omega)]
      exact ih hts hs

/-- the site found at a position stands there -/
theorem find?_position {sites : List Site} {s : Site} {n : Nat}
    (h : (sites.find? fun t => t.position == n) = some s) : s ∈ sites ∧ s.position = n :=
  ⟨List.mem_of_find?_eq_some h, by simpa using List.find?_some h⟩

/-! ## blocks -/

/-- what is put around a call -/
structure Around where
  site : Site
  frame : Frame
  shape : CallShape
  labels : SiteLabels

/-- an instruction of the method with what is put around it -/
structure Block where
  around : Option Around
  own : Insn

namespace Block

/-- the code in front of the instruction -/
def before (b : Block) : List Insn :=
  match b.around with
  | none => []
  | some x => beforeCall x.site x.frame x.shape x.labels

/-- the code behind the instruction -/
def behind (a : Analysis) (ret : Option Kind) (b : Block) : List Insn :=
  match b.around with
  | none => []
  | some x => afterCall a ret x.site x.frame x.shape x.labels

def code (a : Analysis) (ret : Option Kind) (b : Block) : List Insn :=
  b.before ++ b.own :: b.behind a ret

def handlers (b : Block) : List TryCatch :=
  match b.around with
  | none => []
  | some x => siteHandlers x.site x.labels

def exclusions (b : Block) : List Exclusion :=
  match b.around with
  | none => []
  | some x => siteExclusions x.labels

/-- the instruction and the code put in around it -/
def pieces (a : Analysis) (ret : Option Kind) (b : Block) : List Piece :=
  match b.around with
  | none => [.own b.own]
  | some x => [.injected (beforeCall x.site x.frame x.shape x.labels), .own b.own,
      .injected (afterCall a ret x.site x.frame x.shape x.labels)]

theorem codeOf_pieces (a : Analysis) (ret : Option Kind) (b : Block) :
    Piece.codeOf (b.pieces a ret) = b.code a ret := by
  obtain ⟨around, own⟩ := b
  cases around <;> simp [pieces, code, before, behind, Piece.codeOf, Piece.code]

theorem keptOf_pieces (a : Analysis) (ret : Option Kind) (b : Block) :
    Piece.keptOf (b.pieces a ret) = [b.own] := by
  obtain ⟨around, own⟩ := b
  cases around <;> rfl

theorem codeOf_flatMap (a : Analysis) (ret : Option Kind) (bs : List Block) :
    Piece.codeOf (bs.flatMap (pieces a ret)) = bs.flatMap (code a ret) := by
  induction bs with
  | nil => rfl
  | cons b bs ih =>
    rw [List.flatMap_cons, Piece.codeOf_append, codeOf_pieces, ih, List.flatMap_cons]

theorem keptOf_flatMap (a : Analysis) (ret : Option Kind) (bs : List Block) :
    Piece.keptOf (bs.flatMap (pieces a ret)) = bs.map own := by
  induction bs with
  | nil => rfl
  | cons b bs ih =>
    rw [List.flatMap_cons, Piece.keptOf_append, keptOf_pieces, ih, List.map_cons]
    rfl

end Block

/-- what is put around a call is made for it -/
structure Around.Fits (x : Around) (sites : List Site) (position : Nat) : Prop where
  found : (sites.find? fun s => s.position == position) = some x.site
  frame : x.site.frame = some x.frame
  shape : ∃ d, MethodDesc.parse? x.site.callee.desc = some d ∧
    CallShape.of? x.site.kind d x.frame = some x.shape

/-- the blocks of instructions from a position on, where `base` is the next free label -/
inductive Lays (sites : List Site) : Nat → UInt32 → List Insn → List Block → Prop
  | nil (position : Nat) (base : UInt32) : Lays sites position base [] []
  | keep {position : Nat} {base : UInt32} {i : Insn} {is : List Insn} {bs : List Block}
      (skipped : ∀ s, (sites.find? fun s => s.position == position) = some s → s.frame = none)
      (rest : Lays sites (position + 1) base is bs) :
      Lays sites position base (i :: is) (⟨none, i⟩ :: bs)
  | weave {position : Nat} {base : UInt32} {i : Insn} {is : List Insn} {bs : List Block}
      {x : Around} (fits : x.Fits sites position) (labels : x.labels = .ofBase base)
      (rest : Lays sites (position + 1) (base + UInt32.ofNat labelsPerSite) is bs) :
      Lays sites position base (i :: is) (⟨some x, i⟩ :: bs)

/-- the blocks that weaving lays out -/
def LaidOut (a : Analysis) (ret : Option Kind) (sites : List Site) (position : Nat) (base : UInt32)
    (is : List Insn) (r : Woven) : Prop :=
  ∃ bs, Lays sites position base is bs ∧ r.pieces = bs.flatMap (Block.pieces a ret) ∧
    r.handlers = bs.flatMap Block.handlers ∧ r.exclusions = bs.flatMap Block.exclusions

section
variable {a : Analysis} {ret : Option Kind} {sites : List Site} {position : Nat} {base : UInt32}
  {i : Insn} {is : List Insn} {r : Woven}

theorem LaidOut.keep
    (hskip : ∀ s, (sites.find? fun s => s.position == position) = some s → s.frame = none)
    (h : LaidOut a ret sites (position + 1) base is r) :
    LaidOut a ret sites position base (i :: is) ((keepInsn i).append r) := by
  obtain ⟨bs, hlays, hpieces, hhandlers, hexclusions⟩ := h
  refine ⟨⟨none, i⟩ :: bs, .keep hskip hlays, ?_, hhandlers, hexclusions⟩
  show _ ++ r.pieces = _
  rw [hpieces]
  rfl

theorem LaidOut.weave {site : Site} {f : Frame} {head : Woven}
    (hsite : (sites.find? fun s => s.position == position) = some site)
    (hf : site.frame = some f) (hhead : weaveSite a ret site f base i = .ok head)
    (h : LaidOut a ret sites (position + 1) (base + UInt32.ofNat labelsPerSite) is r) :
    LaidOut a ret sites position base (i :: is) (head.append r) := by
  obtain ⟨bs, hlays, hpieces, hhandlers, hexclusions⟩ := h
  unfold weaveSite at hhead
  split at hhead
  · exact absurd hhead (by simp)
  · rename_i desc hdesc
    split at hhead
    · exact absurd hhead (by simp)
    · rename_i shape hshape
      injection hhead with hhead
      subst hhead
      refine ⟨⟨some ⟨site, f, shape, .ofBase base⟩, i⟩ :: bs,
        .weave ⟨hsite, hf, desc, hdesc, hshape⟩ rfl hlays, ?_, ?_, ?_⟩
      · show _ ++ r.pieces = _
        rw [hpieces]
        rfl
      · show _ ++ r.handlers = _
        rw [hhandlers]
        rfl
      · show _ ++ r.exclusions = _
        rw [hexclusions]
        rfl

end

/-- weaving lays out one block for each instruction -/
theorem weaveFrom_ok {a : Analysis} {ret : Option Kind} {sites : List Site} {position : Nat}
    {base : UInt32} {is : List Insn} {r : Woven}
    (h : weaveFrom a ret sites position base is = .ok r) :
    LaidOut a ret sites position base is r := by
  induction is generalizing position base r with
  | nil =>
    obtain rfl : Woven.empty = r := by simpa [weaveFrom] using h
    exact ⟨[], .nil position base, rfl, rfl, rfl⟩
  | cons i is ih =>
    rw [weaveFrom] at h
    split at h
    · rename_i site hsite
      split at h
      · rename_i f hf
        obtain ⟨head, hhead, h⟩ := Effect.bind_eq_ok h
        obtain ⟨rest, hrest, h⟩ := Effect.bind_eq_ok h
        injection h with h
        rw [← h]
        exact .weave hsite hf hhead (ih hrest)
      · rename_i hf
        obtain ⟨rest, hrest, h⟩ := Effect.bind_eq_ok h
        injection h with h
        rw [← h]
        refine .keep (fun s hs => ?_) (ih hrest)
        rw [hsite] at hs
        injection hs with hs
        rw [← hs]
        exact hf
    · rename_i hnone
      obtain ⟨rest, hrest, h⟩ := Effect.bind_eq_ok h
      injection h with h
      rw [← h]
      refine .keep (fun s hs => ?_) (ih hrest)
      rw [hnone] at hs
      exact absurd hs (by simp)

namespace Lays

variable {sites : List Site} {position : Nat} {base : UInt32} {is : List Insn} {bs : List Block}

/-- the blocks hold the instructions in order -/
theorem own (h : Lays sites position base is bs) : bs.map Block.own = is := by
  induction h with
  | nil => rfl
  | keep _ _ ih => rw [List.map_cons, ih]
  | weave _ _ _ ih => rw [List.map_cons, ih]

/-- around each instruction stands what its site asks for -/
theorem block (h : Lays sites position base is bs) {j : Nat} {b : Block} (hb : bs[j]? = some b) :
    (b.around = none ∧
      ∀ s, (sites.find? fun s => s.position == position + j) = some s → s.frame = none) ∨
    ∃ x, b.around = some x ∧ x.Fits sites (position + j) := by
  induction h generalizing j with
  | nil => exact absurd hb (by simp)
  | keep hskip _ ih =>
    cases j with
    | zero =>
      obtain rfl : _ = b := by simpa using hb
      exact .inl ⟨rfl, hskip⟩
    | succ j =>
      rw [show ∀ n : Nat, n + (j + 1) = n + 1 + j by omega]
      exact ih hb
  | weave hfits _ _ ih =>
    cases j with
    | zero =>
      obtain rfl : _ = b := by simpa using hb
      exact .inr ⟨_, rfl, hfits⟩
    | succ j =>
      rw [show ∀ n : Nat, n + (j + 1) = n + 1 + j by omega]
      exact ih hb

end Lays

/-! ## woven methods -/

/-- the parts of a woven method -/
structure Layout (a : Analysis) (m : Method) where
  desc : MethodDesc
  blocks : List Block

namespace Layout

variable {a : Analysis} {m m' : Method}

def ret (l : Layout a m) : Option Kind := l.desc.ret.map FieldType.kind

def sites (_ : Layout a m) : List Site := sitesOf a m.nextLabel

def labels (l : Layout a m) : PrologueLabels := .ofSites m.nextLabel l.sites

/-- the code in front of the first block -/
def prologue (l : Layout a m) : List Insn :=
  Resumable.prologue a.method.text l.ret l.sites l.labels

def code (l : Layout a m) : List Insn := l.prologue ++ l.blocks.flatMap (Block.code a l.ret)

/-- the method's own instructions and the code put in -/
def pieces (l : Layout a m) : List Piece :=
  .injected l.prologue :: l.blocks.flatMap (Block.pieces a l.ret)

theorem codeOf_pieces (l : Layout a m) : Piece.codeOf l.pieces = l.code := by
  rw [pieces, Piece.codeOf_cons, Block.codeOf_flatMap]
  rfl

theorem keptOf_pieces (l : Layout a m) : Piece.keptOf l.pieces = l.blocks.map Block.own := by
  rw [pieces, Piece.keptOf_cons, Block.keptOf_flatMap]
  rfl

/-- the handlers of single calls -/
def handlers (l : Layout a m) : List TryCatch := l.blocks.flatMap Block.handlers

def exclusions (l : Layout a m) : List Exclusion := l.blocks.flatMap Block.exclusions

/-- where the block of a position starts -/
def start (l : Layout a m) (n : Nat) : Nat :=
  l.prologue.length + ((l.blocks.take n).flatMap (Block.code a l.ret)).length

/-- the code of a method is laid out in this way -/
structure Laid (l : Layout a m) (m' : Method) : Prop where
  desc : MethodDesc.parse? m.desc = some l.desc
  insns : a.insns = m.code
  blocks : Resumable.Lays l.sites 0
    (m.nextLabel + UInt32.ofNat (labelsBeforeSites l.sites)) m.code l.blocks
  code_eq : m'.code = l.code

/-- the woven method is laid out in this way -/
structure Lays (l : Layout a m) (m' : Method) : Prop extends l.Laid m' where
  table : ∃ table, splitRegions l.code m.tryCatches l.exclusions = .ok table ∧
    m' = { m with code := l.code, tryCatches := l.handlers ++ table }

end Layout

/-- what weaving checks before it starts -/
theorem describes_iff {a : Analysis} {m : Method} (h : describes a m = true) :
    a.frames.length = m.code.length ∧ a.method.name = m.name ∧ a.method.desc = m.desc ∧
      a.isStatic = m.isStatic := by
  simp only [describes, Bool.and_eq_true, beq_iff_eq] at h
  obtain ⟨⟨⟨⟨-, hframes⟩, hname⟩, hdesc⟩, hstatic⟩ := h
  exact ⟨hframes, hname, hdesc, hstatic⟩

/-- woven code is the prologue and then the blocks -/
theorem weaveCode_ok {a : Analysis} {m : Method} {desc : MethodDesc} {r : Woven}
    (h : weaveCode a (desc.ret.map FieldType.kind) m.nextLabel = .ok r) :
    ∃ l : Layout a m, l.desc = desc ∧ r.pieces = l.pieces ∧ r.handlers = l.handlers ∧
      r.exclusions = l.exclusions ∧ Resumable.Lays l.sites 0
        (m.nextLabel + UInt32.ofNat (labelsBeforeSites l.sites)) a.insns l.blocks := by
  unfold weaveCode at h
  obtain ⟨rest, hrest, h⟩ := Effect.bind_eq_ok h
  injection h with h
  obtain ⟨bs, hlays, hpieces, hhandlers, hexclusions⟩ := weaveFrom_ok hrest
  refine ⟨⟨desc, bs⟩, rfl, ?_, ?_, ?_, hlays⟩
  · rw [← h]
    show _ ++ rest.pieces = _
    rw [hpieces]
    rfl
  · rw [← h]
    exact hhandlers
  · rw [← h]
    exact hexclusions

/-- what weaving a method comes to -/
theorem weaveMethod_woven {a : Analysis} {m m' : Method} (hinsns : a.insns = m.code)
    (h : weaveMethod a m = .ok m') :
    describes a m = true ∧ a.needsWeaving = true ∧ ∃ desc r table,
      MethodDesc.parse? m.desc = some desc ∧
      weaveCode a (desc.ret.map FieldType.kind) m.nextLabel = .ok r ∧
      splitRegions r.code m.tryCatches r.exclusions = .ok table ∧
      m' = { m with code := r.code, tryCatches := r.handlers ++ table } := by
  have hbody : weaveBody a m = .ok m' := by
    unfold weaveMethod at h
    split at h
    · rename_i hbody
      injection h with h
      rw [hbody, h]
    · exact absurd h (by simp)
  unfold weaveBody at hbody
  split at hbody
  · exact absurd hbody (by simp)
  · rename_i hneeds
    split at hbody
    · exact absurd hbody (by simp)
    · rename_i hdescribes
      split at hbody
      · exact absurd hbody (by simp)
      · rename_i desc hdesc
        obtain ⟨woven, hcode, hbody⟩ := Effect.bind_eq_ok hbody
        rw [Analysis.on_eq hinsns] at hcode
        obtain ⟨table, htable, hbody⟩ := Effect.bind_eq_ok hbody
        injection hbody with hbody
        exact ⟨by simpa using hdescribes, by simpa using hneeds, desc, woven, table, hdesc, hcode,
          htable, hbody.symm⟩

/-- woven code and a clipped table are laid out -/
theorem weaveCode_lays {a : Analysis} {m : Method} {desc : MethodDesc} {r : Woven}
    {table : List TryCatch} (hinsns : a.insns = m.code) (hdesc : MethodDesc.parse? m.desc = some desc)
    (hcode : weaveCode a (desc.ret.map FieldType.kind) m.nextLabel = .ok r)
    (htable : splitRegions r.code m.tryCatches r.exclusions = .ok table) :
    ∃ l : Layout a m, l.Lays { m with code := r.code, tryCatches := r.handlers ++ table } ∧
      r.pieces = l.pieces := by
  obtain ⟨l, hl, hpieces, hhandlers, hexclusions, hlays⟩ := weaveCode_ok hcode
  have hlcode : r.code = l.code := by
    rw [Woven.code, hpieces, Layout.codeOf_pieces]
  rw [hlcode, hexclusions] at htable
  rw [hinsns] at hlays
  exact ⟨l, ⟨⟨by rw [hl]; exact hdesc, hinsns, hlays, hlcode⟩, table, htable,
    by rw [hlcode, hhandlers]⟩, hpieces⟩

/-- every woven method is laid out -/
theorem weaveMethod_ok {a : Analysis} {m m' : Method} (hinsns : a.insns = m.code)
    (h : weaveMethod a m = .ok m') :
    ∃ l : Layout a m, l.Lays m' ∧ describes a m = true ∧ a.needsWeaving = true := by
  obtain ⟨hdescribes, hneeds, desc, r, table, hdesc, hcode, htable, rfl⟩ := weaveMethod_woven hinsns h
  obtain ⟨l, hl, -⟩ := weaveCode_lays hinsns hdesc hcode htable
  exact ⟨l, hl, hdescribes, hneeds⟩

namespace Layout

variable {a : Analysis} {m m' : Method} {l : Layout a m} {n : Nat} {b : Block}

theorem Laid.length_blocks (h : l.Laid m') : l.blocks.length = m.code.length := by
  rw [← h.blocks.own, List.length_map]

/-- every instruction has a block -/
theorem Laid.block (h : l.Laid m') {i : Insn} (hi : m.code[n]? = some i) :
    ∃ b, l.blocks[n]? = some b ∧ b.own = i := by
  rw [← h.blocks.own, List.getElem?_map] at hi
  cases hb : l.blocks[n]? with
  | none => rw [hb] at hi; exact absurd hi (by simp)
  | some b =>
    rw [hb] at hi
    exact ⟨b, rfl, by simpa using hi⟩

theorem Laid.own (h : l.Laid m') (hb : l.blocks[n]? = some b) : m.code[n]? = some b.own := by
  rw [← h.blocks.own, List.getElem?_map, hb]
  rfl

/-- woven code cut around a block -/
theorem code_split (hb : l.blocks[n]? = some b) :
    l.code = (l.prologue ++ (l.blocks.take n).flatMap (Block.code a l.ret)) ++
      (b.code a l.ret ++ (l.blocks.drop (n + 1)).flatMap (Block.code a l.ret)) := by
  obtain ⟨hn, rfl⟩ := List.getElem?_eq_some_iff.1 hb
  have hsplit : l.blocks = l.blocks.take n ++ l.blocks[n] :: l.blocks.drop (n + 1) := by
    rw [← List.drop_eq_getElem_cons hn, List.take_append_drop]
  have hflat : l.blocks.flatMap (Block.code a l.ret) =
      (l.blocks.take n).flatMap (Block.code a l.ret) ++ (l.blocks[n].code a l.ret ++
        (l.blocks.drop (n + 1)).flatMap (Block.code a l.ret)) := by
    conv => lhs; rw [hsplit]
    rw [List.flatMap_append, List.flatMap_cons]
  rw [code, hflat, List.append_assoc]

theorem length_before (l : Layout a m) (n : Nat) :
    (l.prologue ++ (l.blocks.take n).flatMap (Block.code a l.ret)).length = l.start n := by
  rw [List.length_append]
  rfl

/-- the code of a block stands at its start -/
theorem Laid.holds (h : l.Laid m') (hb : l.blocks[n]? = some b) :
    Holds m'.code (l.start n) (b.code a l.ret) := by
  rw [h.code_eq]
  exact ⟨_, _, code_split hb, length_before l n⟩

/-- the next block starts where a block ends -/
theorem start_succ (hb : l.blocks[n]? = some b) :
    l.start (n + 1) = l.start n + (b.code a l.ret).length := by
  obtain ⟨hn, rfl⟩ := List.getElem?_eq_some_iff.1 hb
  rw [start, start, List.take_succ_eq_append_getElem hn, List.flatMap_append, List.flatMap_singleton,
    List.length_append, Nat.add_assoc]

/-- a reachable site has a block of its own -/
theorem Laid.around (h : l.Laid m') {s : Site} {f : Frame} (hs : s ∈ l.sites)
    (hf : s.frame = some f) :
    ∃ b x, l.blocks[s.position]? = some b ∧ b.around = some x ∧ x.site = s ∧ x.frame = f ∧
      x.Fits l.sites s.position := by
  obtain ⟨j, i, hj, hp, -, -⟩ := sitesFrom_sound hs
  rw [Nat.zero_add] at hp
  rw [h.insns, ← hp] at hj
  obtain ⟨b, hb, -⟩ := h.block hj
  have hfind := find?_of_pairwise sitesFrom_pairwise hs
  rcases h.blocks.block hb with ⟨-, hnone⟩ | ⟨x, hx, hfits⟩
  · rw [Nat.zero_add] at hnone
    exact absurd hf (by rw [hnone s hfind]; simp)
  · rw [Nat.zero_add] at hfits
    have hsite : x.site = s := by
      have hfound := hfits.found
      rw [show (l.sites.find? fun t => t.position == s.position) = some s from hfind] at hfound
      injection hfound with hfound
      exact hfound.symm
    have hframe : x.frame = f := by
      have hxf := hfits.frame
      rw [hsite, hf] at hxf
      injection hxf with hxf
      exact hxf.symm
    exact ⟨b, x, hb, hx, hsite, hframe, hfits⟩

end Layout
end Resumable
