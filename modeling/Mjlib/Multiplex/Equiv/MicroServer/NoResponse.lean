import Mjlib.Multiplex.Equiv.MicroServer.Lockstep

/-!
# Processing a frame without a response

A frame may ask for no response, or come while the last response is still being written.
`ProcessSubframeRead` then returns before it has read its arguments, so they are executed as
subframes (`not_writes_eq`).  `writes_eq_of_inStep` is the condition under which the registers are
written as they are when there is a response.
-/

namespace Mjlib.Multiplex.MicroServer

variable {σ τ : Type*} {env : Env σ τ}

/-- The registers written and the values, in order. -/
def writes (s : State σ τ) : List (Register × Value) :=
  s.calls.filterMap fun
    | .write reg value _ => some (reg, value)
    | .read _ _ _ => none

/-- **With and without a response** the server is written to in the same way, when no subframe that is
reached reads registers and the two runs agree on every tunnel that overruns. -/
theorem writes_eq_of_inStep (env : Env σ τ) (subframes : Bytes) (s : State σ τ)
    (w : Base.BufferWriteStream)
    (h : InStep env subframes { s with response := some w } { s with response := none }) :
    writes (processSubframes env subframes { s with response := some w })
      = writes (processSubframes env subframes { s with response := none }) := by
  have hcore : core { s with response := some w } = core { s with response := none } := rfl
  have hcalls := congrArg (·.2.1) (core_processSubframes env hcore h)
  exact congrArg (List.filterMap _) hcalls

/-- A write of two registers and a nop are processed in the same way with and without a response. -/
theorem writes_eq_of_inStep_write :
    writes (processSubframes plainEnv [0x02, 0x05, 0x07, 0x08, 0x50]
        { server := (), client := (), tunnels := [], response := some (.new 256) })
      = writes (processSubframes plainEnv [0x02, 0x05, 0x07, 0x08, 0x50]
        { server := (), client := (), tunnels := [], response := none }) :=
  writes_eq_of_inStep plainEnv [0x02, 0x05, 0x07, 0x08, 0x50]
    { server := (), client := (), tunnels := [] } (.new 256) (by
      refine ⟨rfl, by decide, fun _ => ⟨rfl, by decide, fun _ => trivial⟩⟩)

/-- A read of the registers 5 and 6 followed by two nops: without a response its arguments `02 05`
are executed as a write of those registers. -/
theorem not_writes_eq : ¬ ∀ (env : Env Unit Unit) (subframes : Bytes) (s : State Unit Unit)
    (w : Base.BufferWriteStream),
    (∀ server reg type, ∃ value, env.server.read server reg type = .value value) →
    writes (processSubframes env subframes { s with response := some w })
      = writes (processSubframes env subframes { s with response := none }) := by
  intro h
  have := h plainEnv [0x10, 0x02, 0x05, 0x50, 0x50] { server := (), client := (), tunnels := [] }
    (.new 256) (fun _ _ type => ⟨Value.ofScalar type 0, rfl⟩)
  exact absurd this (by decide)

end Mjlib.Multiplex.MicroServer
