import OtlpCollectorOidc.Lib.Once
import OtlpCollectorOidc.Receiver.Refusals

namespace OtlpCollectorOidc.Receiver

open Text Transition
open Upstream (Signal)

/-- What the function under `startOnce` does next. -/
inductive StartStage where
  | toServer
  | toListener
  | assign
  | serve

/-- What the function under `stopOnce` does next, with the error `Shutdown` is to return. -/
inductive StopStage where
  | close
  | stopGRPC (err : Option Bytes)
  | wait (err : Option Bytes)
  | stopMetrics (err : Option Bytes)
  | release (err : Option Bytes)
  | finish (err : Option Bytes)

def StartStage.number : StartStage → ℕ
  | toServer => 0
  | toListener => 1
  | assign => 2
  | serve => 3

def StopStage.number : StopStage → ℕ
  | close => 0
  | stopGRPC _ => 1
  | wait _ => 2
  | stopMetrics _ => 3
  | release _ => 4
  | finish _ => 5

/-- A receiver shared by the pipelines of one configuration. The listener counts as open until `Serve`
has returned. -/
structure SharedReceiver (κ χ : Type) where
  config : κ
  routes : Signal → Option χ := fun _ ↦ none
  startOnce : Once StartStage (Option Bytes) := .fresh
  stopOnce : Once StopStage (Option Bytes) := .fresh
  httpServer : Bool := false
  listening : Bool := false
  inShutdown : Bool := false
  serving : Bool := false
  fatal : Option Bytes := none

/-- What befalls a receiver: a pipeline registers, a caller enters `Start` or `Shutdown`, the function
of either takes its next step, or `Serve` returns. An operation that can fail carries its error. -/
inductive ReceiverAct (χ : Type) where
  | register (sig : Signal) (next : χ)
  | start
  | toServer (err : Option Bytes)
  | toListener (err : Option Bytes)
  | assign
  | serve
  | shutdown
  | close (err : Option Bytes)
  | stopGRPC
  | wait
  | stopMetrics
  | release
  | finish
  | serveReturns (err : Bytes)

section Steps

variable {κ χ : Type}

namespace SharedReceiver

/-- Registering a signal twice is fatal to grpc-go; a caller that finds a once begun waits for its result. -/
def step (r : SharedReceiver κ χ) : ReceiverAct χ → Option (SharedReceiver κ χ)
  | .register sig next =>
    if (r.routes sig).isNone then some { r with routes := Function.update r.routes sig (some next) } else none
  | .start =>
    match r.startOnce with
    | .fresh => some { r with startOnce := .running .toServer }
    | _ => some r
  | .toServer err =>
    match r.startOnce, err with
    | .running .toServer, none => some { r with startOnce := .running .toListener }
    | .running .toServer, some e =>
      some { r with startOnce := .done (some (ofString "creating the server: " ++ e)) }
    | _, _ => none
  | .toListener err =>
    match r.startOnce, err with
    | .running .toListener, none => some { r with startOnce := .running .assign, listening := true }
    | .running .toListener, some e =>
      some { r with startOnce := .done (some (ofString "opening the listener: " ++ e)) }
    | _, _ => none
  | .assign =>
    match r.startOnce with
    | .running .assign => some { r with startOnce := .running .serve, httpServer := true }
    | _ => none
  | .serve =>
    match r.startOnce with
    | .running .serve => some { r with startOnce := .done none, serving := true }
    | _ => none
  | .shutdown =>
    match r.stopOnce with
    | .fresh => some { r with stopOnce := .running .close }
    | _ => some r
  | .close err =>
    match r.stopOnce, r.httpServer with
    | .running .close, true => some { r with stopOnce := .running (.stopGRPC err), inShutdown := true }
    | .running .close, false => some { r with stopOnce := .running (.stopGRPC none) }
    | _, _ => none
  | .stopGRPC =>
    match r.stopOnce with
    | .running (.stopGRPC err) => some { r with stopOnce := .running (.wait err) }
    | _ => none
  | .wait =>
    match r.stopOnce, r.serving with
    | .running (.wait err), false => some { r with stopOnce := .running (.stopMetrics err) }
    | _, _ => none
  | .stopMetrics =>
    match r.stopOnce with
    | .running (.stopMetrics err) => some { r with stopOnce := .running (.release err) }
    | _ => none
  | .release =>
    match r.stopOnce with
    | .running (.release err) => some { r with stopOnce := .running (.finish err) }
    | _ => none
  | .finish =>
    match r.stopOnce with
    | .running (.finish err) => some { r with stopOnce := .done err }
    | _ => none
  | .serveReturns err =>
    match r.serving with
    | true =>
      some { r with
        serving := false, listening := false, fatal := if r.inShutdown then r.fatal else some err }
    | false => none

def released (r : SharedReceiver κ χ) : Bool :=
  match r.stopOnce with
  | .running (.finish _) | .done _ => true
  | _ => false

end SharedReceiver

/-- The errors of what `newReceiver` builds. -/
structure Wiring where
  telemetry : Option Bytes := none
  obsGRPC : Option Bytes := none
  obsHTTP : Option Bytes := none

/-- The error `newReceiver` returns. -/
def newReceiver (w : Wiring) : Option Bytes :=
  match w.telemetry, w.obsGRPC, w.obsHTTP with
  | some e, _, _ => some (ofString "creating the receiver's telemetry: " ++ e)
  | none, some e, _ => some (ofString "creating the grpc obsreport: " ++ e)
  | none, none, some e => some (ofString "creating the http obsreport: " ++ e)
  | none, none, none => none

structure Factory (κ χ : Type) where
  shared : List (SharedReceiver κ χ) := []
  receivers : κ → Option ℕ := fun _ ↦ none

inductive Factory.Act (κ χ : Type) where
  | load (cfg : κ) (w : Wiring)
  | receiver (h : ℕ) (a : ReceiverAct χ)

namespace Factory

variable [DecidableEq κ]

def add (f : Factory κ χ) (cfg : κ) : Factory κ χ where
  shared := f.shared ++ [{ config := cfg }]
  receivers := Function.update f.receivers cfg (some f.shared.length)

def load (f : Factory κ χ) (cfg : κ) (w : Wiring) : Except Bytes ℕ × Factory κ χ :=
  match f.receivers cfg, newReceiver w with
  | some h, _ => (.ok h, f)
  | none, some err => (.error err, f)
  | none, none => (.ok f.shared.length, f.add cfg)

def release (f : Factory κ χ) (cfg : κ) : Factory κ χ :=
  { f with receivers := Function.update f.receivers cfg none }

def put (f : Factory κ χ) (h : ℕ) (r : SharedReceiver κ χ) : Factory κ χ :=
  { f with shared := f.shared.set h r }

def step (f : Factory κ χ) : Act κ χ → Option (Factory κ χ)
  | .load cfg w => some (f.load cfg w).2
  | .receiver h a => f.shared[h]?.bind (fun r ↦ (r.step a).map (fun r' ↦
      match a with
      | .release => (f.put h r').release r.config
      | _ => f.put h r'))

end Factory

end Steps

section Inversion

variable {κ χ : Type}

inductive ReceiverStep (r : SharedReceiver κ χ) : ReceiverAct χ → SharedReceiver κ χ → Prop where
  | register {sig : Signal} {next : χ} : r.routes sig = none →
      ReceiverStep r (.register sig next) { r with routes := Function.update r.routes sig (some next) }
  | start : r.startOnce = .fresh → ReceiverStep r .start { r with startOnce := .running .toServer }
  | startAgain : r.startOnce ≠ .fresh → ReceiverStep r .start r
  | server : r.startOnce = .running .toServer →
      ReceiverStep r (.toServer none) { r with startOnce := .running .toListener }
  | serverFailed {e : Bytes} : r.startOnce = .running .toServer →
      ReceiverStep r (.toServer (some e))
        { r with startOnce := .done (some (ofString "creating the server: " ++ e)) }
  | listener : r.startOnce = .running .toListener →
      ReceiverStep r (.toListener none) { r with startOnce := .running .assign, listening := true }
  | listenerFailed {e : Bytes} : r.startOnce = .running .toListener →
      ReceiverStep r (.toListener (some e))
        { r with startOnce := .done (some (ofString "opening the listener: " ++ e)) }
  | assign : r.startOnce = .running .assign →
      ReceiverStep r .assign { r with startOnce := .running .serve, httpServer := true }
  | serve : r.startOnce = .running .serve →
    ReceiverStep r .serve { r with startOnce := .done none, serving := true }
  | shutdown : r.stopOnce = .fresh → ReceiverStep r .shutdown { r with stopOnce := .running .close }
  | shutdownAgain : r.stopOnce ≠ .fresh → ReceiverStep r .shutdown r
  | close {err : Option Bytes} : r.stopOnce = .running .close → r.httpServer = true →
      ReceiverStep r (.close err) { r with stopOnce := .running (.stopGRPC err), inShutdown := true }
  | closeNone {err : Option Bytes} : r.stopOnce = .running .close → r.httpServer = false →
      ReceiverStep r (.close err) { r with stopOnce := .running (.stopGRPC none) }
  | stopGRPC {err : Option Bytes} : r.stopOnce = .running (.stopGRPC err) →
      ReceiverStep r .stopGRPC { r with stopOnce := .running (.wait err) }
  | wait {err : Option Bytes} : r.stopOnce = .running (.wait err) → r.serving = false →
      ReceiverStep r .wait { r with stopOnce := .running (.stopMetrics err) }
  | stopMetrics {err : Option Bytes} : r.stopOnce = .running (.stopMetrics err) →
      ReceiverStep r .stopMetrics { r with stopOnce := .running (.release err) }
  | release {err : Option Bytes} : r.stopOnce = .running (.release err) →
      ReceiverStep r .release { r with stopOnce := .running (.finish err) }
  | finish {err : Option Bytes} : r.stopOnce = .running (.finish err) →
      ReceiverStep r .finish { r with stopOnce := .done err }
  | serveReturns {err : Bytes} : r.serving = true → ReceiverStep r (.serveReturns err)
      { r with serving := false, listening := false, fatal := if r.inShutdown then r.fatal else some err }

theorem SharedReceiver.step_inv {r r' : SharedReceiver κ χ} {a : ReceiverAct χ} (h : r.step a = some r') :
    ReceiverStep r a r' := by
  unfold SharedReceiver.step at h
  cases a with
  | register sig next =>
    dsimp only at h
    split_ifs at h with hr
    cases h
    exact .register (Option.isNone_iff_eq_none.mp hr)
  | start =>
    dsimp only at h
    split at h <;> cases h
    · exact .start ‹_›
    · exact .startAgain ‹_›
  | toServer err =>
    dsimp only at h
    split at h <;> cases h
    · exact .server ‹_›
    · exact .serverFailed ‹_›
  | toListener err =>
    dsimp only at h
    split at h <;> cases h
    · exact .listener ‹_›
    · exact .listenerFailed ‹_›
  | assign =>
    dsimp only at h
    split at h <;> cases h
    exact .assign ‹_›
  | serve =>
    dsimp only at h
    split at h <;> cases h
    exact .serve ‹_›
  | shutdown =>
    dsimp only at h
    split at h <;> cases h
    · exact .shutdown ‹_›
    · exact .shutdownAgain ‹_›
  | close err =>
    dsimp only at h
    split at h <;> cases h
    · exact .close ‹_› ‹_›
    · exact .closeNone ‹_› ‹_›
  | stopGRPC =>
    dsimp only at h
    split at h <;> cases h
    exact .stopGRPC ‹_›
  | wait =>
    dsimp only at h
    split at h <;> cases h
    exact .wait ‹_› ‹_›
  | stopMetrics =>
    dsimp only at h
    split at h <;> cases h
    exact .stopMetrics ‹_›
  | release =>
    dsimp only at h
    split at h <;> cases h
    exact .release ‹_›
  | finish =>
    dsimp only at h
    split at h <;> cases h
    exact .finish ‹_›
  | serveReturns err =>
    dsimp only at h
    split at h <;> cases h
    exact .serveReturns ‹_›

variable [DecidableEq κ]

inductive Factory.Step (f : Factory κ χ) : Factory.Act κ χ → Factory κ χ → Prop where
  | found {cfg : κ} {w : Wiring} {h : ℕ} : f.receivers cfg = some h → Step f (.load cfg w) f
  | unbuilt {cfg : κ} {w : Wiring} : f.receivers cfg = none → Step f (.load cfg w) f
  | built {cfg : κ} {w : Wiring} : f.receivers cfg = none → Step f (.load cfg w) (f.add cfg)
  | released {h : ℕ} {r r' : SharedReceiver κ χ} : f.shared[h]? = some r → ReceiverStep r .release r' →
      Step f (.receiver h .release) ((f.put h r').release r.config)
  | moved {h : ℕ} {a : ReceiverAct χ} {r r' : SharedReceiver κ χ} : f.shared[h]? = some r → a ≠ .release →
      ReceiverStep r a r' → Step f (.receiver h a) (f.put h r')

theorem Factory.step_inv {f f' : Factory κ χ} {b : Factory.Act κ χ} (hstep : f.step b = some f') :
    f.Step b f' := by
  cases b with
  | load cfg w =>
    cases Option.some.inj hstep
    rw [Factory.load]
    split
    · exact .found ‹_›
    · exact .unbuilt ‹_›
    · exact .built ‹_›
  | receiver h a =>
    obtain ⟨r, hr, hmap⟩ := Option.bind_eq_some_iff.mp hstep
    obtain ⟨r', hr', hput⟩ := Option.map_eq_some_iff.mp hmap
    have hmoved := SharedReceiver.step_inv hr'
    cases hput
    cases a with
    | release => exact .released hr hmoved
    | _ => exact .moved hr nofun hmoved

theorem Factory.receivers_add (f : Factory κ χ) (cfg c : κ) :
    (f.add cfg).receivers c = if c = cfg then some f.shared.length else f.receivers c :=
      Function.update_apply ..

theorem Factory.receivers_release (f : Factory κ χ) (cfg c : κ) :
    (f.release cfg).receivers c = if c = cfg then none else f.receivers c := Function.update_apply ..

theorem Factory.shared_release (f : Factory κ χ) (cfg : κ) : (f.release cfg).shared = f.shared := rfl

omit [DecidableEq κ] in
theorem Factory.shared_put {f : Factory κ χ} {g : ℕ} {r r' : SharedReceiver κ χ}
    (hg : f.shared[g]? = some r) (h : ℕ) :
    (f.put g r').shared[h]? = if g = h then some r' else f.shared[h]? := by
  obtain ⟨hlt, -⟩ := List.getElem?_eq_some_iff.mp hg
  rw [Factory.put, List.getElem?_set]
  split_ifs with hgh
  · rfl
  · rfl

theorem Factory.shared_add (f : Factory κ χ) (cfg : κ) (h : ℕ) :
    (f.add cfg).shared[h]? = if h = f.shared.length then some { config := cfg } else f.shared[h]? := by
  rw [Factory.add]
  split_ifs with hh
  · rw [hh]
    exact List.getElem?_concat_length
  · rcases Nat.lt_or_gt_of_ne hh with hlt | hgt
    · exact List.getElem?_append_left hlt
    · rw [List.getElem?_eq_none hgt.le, List.getElem?_eq_none]
      rw [List.length_append]
      exact hgt

/-- What becomes of the receiver at a place: it stays, it takes the step itself, or it is built there. -/
theorem Factory.Step.at_place {f f' : Factory κ χ} {b : Factory.Act κ χ} (hstep : f.Step b f') (h : ℕ) :
    f'.shared[h]? = f.shared[h]? ∨
    (∃ a r r', b = .receiver h a ∧ f.shared[h]? = some r ∧ f'.shared[h]? = some r' ∧ ReceiverStep r a r') ∨
    ∃ cfg, f.shared[h]? = none ∧ f'.shared[h]? = some { config := cfg } := by
  cases hstep with
  | found | unbuilt => exact Or.inl rfl
  | @built cfg w hnone =>
    rw [Factory.shared_add]
    split_ifs with hh
    · exact Or.inr (Or.inr ⟨cfg, List.getElem?_eq_none hh.ge, rfl⟩)
    · exact Or.inl rfl
  | @released g r r' hg hr =>
    rw [Factory.shared_release, Factory.shared_put hg]
    split_ifs with hgh
    · subst hgh
      exact Or.inr (Or.inl ⟨_, r, r', rfl, hg, rfl, hr⟩)
    · exact Or.inl rfl
  | @moved g a r r' hg ha hr =>
    rw [Factory.shared_put hg]
    split_ifs with hgh
    · subst hgh
      exact Or.inr (Or.inl ⟨a, r, r', rfl, hg, rfl, hr⟩)
    · exact Or.inl rfl

end Inversion

end OtlpCollectorOidc.Receiver
