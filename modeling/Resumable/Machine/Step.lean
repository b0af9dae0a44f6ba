import Resumable.Machine.Instruction
import Resumable.Machine.Native

/-!
# Steps

One step of the machine executes one instruction, starts one call, or passes the end of a call on to
what waits for it.

* `Machine.step` : one step;
* `Machine.run?` : a call from its beginning to its end, within a bound on the steps;
* `Machine.invoke?`, `Machine.resume?`, `Machine.instantiate?`, `Machine.spawn?` : what is done to a
  machine from outside.
-/

namespace Resumable

/-! ## finding methods -/

/-- what a call runs -/
inductive Target where
  | code (m : Method)
  | native (n : Native)

/-- the method of a class or, where it has none, the built-in one, along a chain of classes -/
def World.findAlong (w : World) (k : InvokeKind) (id : MethodId) :
    List String → Except Fault (Option Target)
  | [] => .ok none
  | c :: cs =>
    match (w.program.class? c).bind fun d => d.method? id.name id.desc with
    | some m =>
      if m.isStatic = (k == .static) then .ok (some (.code m)) else .error (.kindMismatch k id)
    | none =>
      match Native.find? w.hosts ⟨c, id.name, id.desc⟩ with
      | some n => .ok (some (.native n))
      | none => w.findAlong k id cs

/-- What a call runs.  The search starts at the class of the receiver, or at the named class for
calls that say so, and goes on with its superclasses and at last with the named class. -/
def World.resolve (w : World) (k : InvokeKind) (id : MethodId) (receiver : Option String) :
    Except Fault Target :=
  let start := match k with
    | .virtual | .interface => receiver.getD id.owner
    | .static | .special => id.owner
  match w.findAlong k id (w.program.superclassChain start) with
  | .error f => .error f
  | .ok (some t) => .ok t
  | .ok none =>
    match Native.find? w.hosts id with
    | some n => .ok (.native n)
    | none => .error (.noMethod id)

/-! ## handlers -/

/-- the position of a label, which a method must define -/
def positionOf (code : List Insn) (l : Label) : Except Fault Nat :=
  match labelPosition l code with
  | some n => .ok n
  | none => .error (.undefinedLabel l)

/-- a handler accepts what is thrown -/
def TryCatch.accepts (t : TryCatch) (p : Program) (className : String) : Bool :=
  match t.catchType with
  | none => true
  | some type => p.isAssignable className type

/-- the first handler of a table that protects a position and accepts what is thrown -/
def findHandler (p : Program) (code : List Insn) (position : Nat) (className : String) :
    List TryCatch → Except Fault (Option Nat)
  | [] => .ok none
  | t :: ts => do
    let start ← positionOf code t.start
    let stop ← positionOf code t.stop
    if start ≤ position && position < stop && t.accepts p className then
      return some (← positionOf code t.handler)
    else findHandler p code position className ts

namespace Machine

/-! ## calls -/

/-- a call of what was found -/
def enter (m : Machine) (args : List Value) : Target → Machine
  | .code method =>
    { m with pending := .activation (.entry method args) :: m.pending, mode := .executing }
  | .native n => m.runNative n args

/-- a call with the class of its receiver, if it has one -/
def callOn (w : World) (m : Machine) (c : Call) (receiver : Option String) : Machine :=
  match w.resolve c.kind c.method receiver with
  | .ok t => m.enter c.args t
  | .error f => m.fault f

/-- a call, which needs an object as its receiver unless it is static -/
def call (w : World) (m : Machine) (c : Call) : Machine :=
  if c.kind.hasReceiver then
    match c.args.head? with
    | some (.ref (some r)) => m.callOn w c (some (m.heap.className r))
    | some (.ref none) =>
      m.throwNew "java/lang/NullPointerException" ("cannot invoke " ++ c.method.text ++ " on null")
    | _ => m.fault (.missingReceiver c.method)
  else m.callOn w c none

/-! ## activations -/

/-- the uppermost activation goes on at a position -/
def goOn (m : Machine) (a : Activation) (rest : List Pending) : Machine :=
  { m with pending := .activation a :: rest, mode := .executing }

/-- where control goes after an instruction -/
def follow (m : Machine) (a : Activation) (rest : List Pending) : After → Machine
  | .next => m.goOn a.advance rest
  | .jump l =>
    match positionOf a.method.code l with
    | .ok position => m.goOn { a with position } rest
    | .error f => { m with pending := rest }.fault f
  | .finish v => { m with pending := rest, mode := .returning v }
  | .call c => { m with pending := .activation a :: rest, mode := .calling c }

/-- the next instruction of an activation -/
def execute (w : World) (m : Machine) (a : Activation) (rest : List Pending) : Machine :=
  match a.method.code[a.position]? with
  | none => { m with pending := rest }.fault (.fellOffEnd a.method.name)
  | some i =>
    let (r, s) := (i.exec w.program).run ⟨m.heap, m.statics, a⟩
    let m := { m with heap := s.heap, statics := s.statics }
    match r with
    | .ok after => m.follow s.activation rest after
    | .error t => { m with pending := .activation s.activation :: rest, mode := .throwing t }

/-- what is thrown reaches an activation: its handler goes on, or the activation ends; faults have
no handlers -/
def catchIn (w : World) (m : Machine) (a : Activation) (rest : List Pending) (t : Throw) :
    Machine :=
  match t with
  | .fault f => { m with pending := rest }.fault f
  | .exception r =>
    let type := m.heap.className r
    match findHandler w.program a.method.code a.position type a.method.tryCatches with
    | .ok (some position) => m.goOn (a.handle position r) rest
    | .ok none => { m with pending := rest, mode := .throwing t }
    | .error f => { m with pending := rest }.fault f

/-! ## bodies of coroutines -/

/-- the body of a coroutine returned; what it deferred runs now -/
def leaveBody (m : Machine) (id : Nat) (body : Call) (rest : List Pending) : Machine :=
  let (deferred, engine) := m.engine.leave id body true
  let m := { m with engine }
  match deferred with
  | some c => { m with pending := .discard :: rest, mode := .calling c }
  | none => { m with pending := rest, mode := .returning none }

/-- the body of a coroutine threw -/
def abandonBody (m : Machine) (id : Nat) (body : Call) (rest : List Pending) (t : Throw) :
    Machine :=
  let (_, engine) := m.engine.leave id body false
  { m with engine, pending := rest, mode := .throwing t }

/-! ## one step -/

/-- the end of a call reaches what waits for it -/
def deliver (m : Machine) (v : Option Value) (rest : List Pending) : Pending → Machine
  | .activation a =>
    match v with
    | some v => m.goOn (a.push v).advance rest
    | none => m.goOn a.advance rest
  | .body id body => m.leaveBody id body rest
  | .discard => { m with pending := rest, mode := .returning none }

/-- what is thrown reaches what waits for a call -/
def unwind (w : World) (m : Machine) (t : Throw) (rest : List Pending) : Pending → Machine
  | .activation a => m.catchIn w a rest t
  | .body id body => m.abandonBody id body rest t
  | .discard => { m with pending := rest, mode := .throwing t }

/-- One step.  Nothing happens once nothing is under way. -/
def step (w : World) (m : Machine) : Machine :=
  match m.mode, m.pending with
  | .calling c, _ => m.call w c
  | .executing, .activation a :: rest => m.execute w a rest
  | .executing, _ => m
  | .returning _, [] => m
  | .returning v, p :: rest => m.deliver v rest p
  | .throwing _, [] => m
  | .throwing t, p :: rest => m.unwind w t rest p

theorem step_of_result? {w : World} {m : Machine} (h : m.result?.isSome) : m.step w = m := by
  unfold result? at h
  split at h <;> simp_all [step]

/-! ## runs -/

/-- at most `fuel` steps, up to the end of what is under way -/
def run? (w : World) : Nat → Machine → Option (Except Throw (Option Value) × Machine)
  | fuel, m =>
    match m.result?, fuel with
    | some r, _ => some (r, m)
    | none, 0 => none
    | none, fuel + 1 => run? w fuel (m.step w)

/-- a call and its end -/
def invoke? (w : World) (fuel : Nat) (m : Machine) (c : Call) :
    Option (Except Throw (Option Value) × Machine) := run? w fuel (m.begin c)

/-- a coroutine resumed from outside -/
def resume? (w : World) (fuel : Nat) (m : Machine) (id : Nat) :
    Option (Except Throw (Option Value) × Machine) :=
  match m.engine.enter id with
  | (.ok body, engine) => run? w fuel ({ m with engine, pending := [] }.callBody id body)
  | (.error v, engine) => some (.error (.fault (.violation v)), { m with engine })

/-- a new instance of a class, initialized by its constructor without arguments if it has one -/
def instantiate? (w : World) (fuel : Nat) (m : Machine) (type : String) :
    Option (Except Throw Ref × Machine) :=
  let (a, heap) := m.heap.alloc (.instance type [])
  let m := { m with heap }
  let constructor : MethodId := ⟨type, "<init>", "()V"⟩
  if (w.program.method? constructor).isSome then
    match m.invoke? w fuel ⟨.special, constructor, [.object a]⟩ with
    | some (.ok _, m) => some (.ok (.object a), m)
    | some (.error t, m) => some (.error t, m)
    | none => none
  else some (.ok (.object a), m)

/-- a coroutine that runs an object -/
def createRunnable (m : Machine) (r : Ref) : Nat × Machine :=
  let (id, engine) := m.engine.create (Call.ofRunnable r)
  (id, { m with engine })

/-- a coroutine that makes a call -/
def createCall (m : Machine) (c : Call) : Nat × Machine :=
  let (id, engine) := m.engine.create c
  (id, { m with engine })

/-- A coroutine that runs a method without parameters: a static one directly, another one on a new
instance of its class. -/
def spawn? (w : World) (fuel : Nat) (m : Machine) (entry : MethodId) :
    Option (Except Throw Nat × Machine) :=
  match w.program.method? entry, MethodDesc.parse? entry.desc with
  | none, _ => some (.error (.fault (.noEntry entry)), m)
  | some _, none => some (.error (.fault (.badDescriptor entry.desc)), m)
  | some method, some desc =>
    if !desc.params.isEmpty then some (.error (.fault (.entryWithParameters entry)), m)
    else if method.isStatic then
      let (id, m) := m.createCall ⟨.static, entry, []⟩
      some (.ok id, m)
    else
      match m.instantiate? w fuel entry.owner with
      | some (.ok r, m) =>
        let (id, m) := m.createCall ⟨.virtual, entry, [.ref (some r)]⟩
        some (.ok id, m)
      | some (.error t, m) => some (.error t, m)
      | none => none

end Machine

end Resumable
