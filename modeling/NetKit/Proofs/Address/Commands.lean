import NetKit.Address.Registers
import NetKit.Proofs.Address.Blocks
import NetKit.Proofs.Address.RoundTrip

/-!
# Runs of commands — what changes in the registers, and what never gets into them

`Command.perform` says what a register holds after a command on it. A command that fails leaves it alone
(`Command.perform_of_error`): for most of them because nothing is stored, for `Address.setPort` and
`Address.setAddress`, which work on the register in place, because of what they do themselves. No command
touches another register, as `Registers.run` sets its own only.

Of whole runs it is said that registers can be read back from their texts. A text shows all of an address but
its flow information. Only two commands bring flow information into a register, an IPv6 endpoint and a block;
every other command leaves an address without any if there was none in the registers before
(`Command.flow_perform`). So the invariant of a run without those two is that no register has flow information.

## Contents
- `RegisterStep`, `RegisterEntry`, `Registers.record`: runs of commands, and the record of them.
- `Command.perform_of_error`, `Command.perform_of_not_assigns`: what a command leaves alone in its register.
- `RegisterEntry.Framed`, `Registers.framed_run`: what a step leaves alone.
- `Address.ReadsBack`, `Address.readsBack_of_flow`: addresses that their texts stand for.
- `Command.flow_perform`, `Registers.flow_record`: the invariant, after a step and along a run.
- `Registers.record_framed`: whole runs.
-/

namespace NetKit

/-! ## Runs -/

/-- A `Command`, and the register that it works on. -/
structure RegisterStep where
  register : Register
  command : Command
  deriving DecidableEq, Repr

/-- One item of the record: the step, the registers before and after it, and its answer. -/
structure RegisterEntry where
  step : RegisterStep
  before : Registers
  answer : Except CommandError Reply
  after : Registers

namespace Registers

/-- The record of `Registers.run` for one step after the other. -/
def record (interfaces : Interfaces) (rs : Registers) : List RegisterStep → List RegisterEntry
  | [] => []
  | step :: steps =>
    let outcome := rs.run interfaces step.register step.command
    ⟨step, rs, outcome.2.value, outcome.1⟩ :: record interfaces outcome.1 steps

end Registers

/-! ## What a command leaves alone in its register -/

namespace Address

variable {a : Address}

/-- `setAddress` that fails keeps the address. -/
theorem setAddress_of_error {interfaces : Interfaces} {t : Text} {defaultPort : UInt16}
    {e : AddressError} (h : (a.setAddress interfaces t defaultPort).value.1 = .error e) :
    (a.setAddress interfaces t defaultPort).value.2 = a := by
  unfold setAddress at h ⊢
  cases hparse : (parse interfaces t defaultPort).value with
  | error e => rw [Logged.value_map, hparse]
  | ok b => rw [Logged.value_map, hparse] at h; cases h

/-- `setPort` that fails keeps the address, which is `unspecified`. -/
theorem setPort_of_error {port : UInt16} {e : OperationError} (h : (a.setPort port).1 = .error e) :
    (a.setPort port).2 = a ∧ a = .unspecified := by
  cases a with
  | unspecified => exact ⟨rfl, rfl⟩
  | specified endpoint => cases endpoint <;> cases h

end Address

namespace Command

/-- Commands that write their register if they succeed. -/
def assigns : Command → Bool
  | toSockaddr => false
  | sockaddrRoundTrip => false
  | toEndpoint => false
  | describe => false
  | compare _ => false
  | _ => true

/-- Commands that fail on some texts, families, blocks or registers. -/
def mayFail : Command → Bool
  | newByNumber _ => true
  | wildcard .. => true
  | loopback .. => true
  | parse .. => true
  | ofText _ => true
  | setAddress .. => true
  | setPort _ => true
  | map => true
  | fromSockaddr _ => true
  | toEndpoint => true
  | _ => false

variable {interfaces : Interfaces} {rs : Registers} {a : Register} {c : Command}

theorem store_of_error {before : Address} {r : Logged (Except CommandError Address)} {e : CommandError}
    (h : (store before r).2.value = .error e) : (store before r).1 = before := by
  obtain ⟨value, events⟩ := r
  cases value with
  | error e' => rfl
  | ok b => cases h

theorem inPlace_of_error {ε : Type} {error : ε → CommandError} {r : Logged (Except ε Unit × Address)}
    {e : CommandError} (h : (inPlace error r).2.value = .error e) : ∃ cause, r.value.1 = .error cause := by
  obtain ⟨⟨result, after⟩, events⟩ := r
  cases result with
  | error cause => exact ⟨cause, rfl⟩
  | ok => cases h

/-- **`perform` that fails keeps the register**, and is of a command that `mayFail`. -/
theorem perform_of_error {e : CommandError} (h : (c.perform interfaces rs a).2.value = .error e) :
    (c.perform interfaces rs a).1 = rs a ∧ c.mayFail = true := by
  cases c with
  | newByNumber number => exact ⟨store_of_error h, rfl⟩
  | wildcard family port => exact ⟨store_of_error h, rfl⟩
  | loopback family port => exact ⟨store_of_error h, rfl⟩
  | parse text defaultPort => exact ⟨store_of_error h, rfl⟩
  | ofText text => exact ⟨store_of_error h, rfl⟩
  | map => exact ⟨store_of_error h, rfl⟩
  | fromSockaddr block => exact ⟨store_of_error h, rfl⟩
  | setAddress text defaultPort =>
      obtain ⟨cause, hcause⟩ := inPlace_of_error h
      exact ⟨Address.setAddress_of_error hcause, rfl⟩
  | setPort port =>
      obtain ⟨cause, hcause⟩ := inPlace_of_error h
      exact ⟨(Address.setPort_of_error hcause).1, rfl⟩
  | toEndpoint => exact ⟨rfl, rfl⟩
  -- a block that was made from an address can be read, so that the round trip does not fail
  | sockaddrRoundTrip =>
      unfold perform at h
      simp only [Address.ofSockaddr_sockaddr] at h
      cases h
  | new family => cases h
  | copy source => cases h
  | fromIp ip => cases h
  | fromEndpoint endpoint => cases h
  | toSockaddr => cases h
  | describe => cases h
  | compare other => cases h

/-- `perform` keeps the register if the command does not assign. -/
theorem perform_of_not_assigns (h : c.assigns = false) : (c.perform interfaces rs a).1 = rs a := by
  cases c with
  | toSockaddr => rfl
  | sockaddrRoundTrip =>
      unfold perform
      simp only [Address.ofSockaddr_sockaddr]
  | toEndpoint => rfl
  | describe => rfl
  | compare other => rfl
  | _ => cases h

end Command

/-- `setPort` on an address: it fails exactly on `unspecified`, and otherwise changes the port and nothing
    else. -/
structure PortChange (port : UInt16) (before after : Address)
    (answer : Except CommandError Reply) : Prop where
  fails : (∃ e, answer = .error e) ↔ before = .unspecified
  kept : ∀ reply, answer = .ok reply → after.family = before.family ∧ after.ip? = before.ip? ∧
    after.scope = before.scope ∧ after.flow = before.flow
  changed : ∀ reply, answer = .ok reply → after.port = port

/-- What a step leaves alone: all registers but its own, and its own if it fails. -/
structure RegisterEntry.Framed (e : RegisterEntry) : Prop where
  failed : ∀ error, e.answer = .error error → e.after = e.before
  mayFail : ∀ error, e.answer = .error error → e.step.command.mayFail = true
  others : ∀ b, b ≠ e.step.register → e.after b = e.before b
  looked : e.step.command.assigns = false → e.after = e.before
  port : ∀ port, e.step.command = .setPort port →
    PortChange port (e.before e.step.register) (e.after e.step.register) e.answer

namespace Registers

variable (interfaces : Interfaces) (rs : Registers) (a : Register)

/-- `run` of a command that keeps its register is the identity. -/
theorem run_of_kept {c : Command} (h : (c.perform interfaces rs a).1 = rs a) :
    (rs.run interfaces a c).1 = rs :=
  (congrArg (rs.set a) h).trans (Table.set_self rs a)

theorem portChange_run (port : UInt16) : PortChange port (rs a)
    ((rs.run interfaces a (.setPort port)).1 a) (rs.run interfaces a (.setPort port)).2.value := by
  have hafter : (rs.run interfaces a (.setPort port)).1 a = ((rs a).setPort port).2 :=
    Table.set_same rs a _
  have hanswer : (rs.run interfaces a (.setPort port)).2.value =
      (((rs a).setPort port).1.map fun () => Reply.assigned).mapError .operation := rfl
  rw [hafter, hanswer]
  cases rs a with
  | unspecified => exact ⟨⟨fun _ => rfl, fun _ => ⟨_, rfl⟩⟩, fun _ h => (nomatch h), fun _ h => (nomatch h)⟩
  | specified endpoint =>
      cases endpoint with
      | v4 ip old =>
          refine ⟨⟨?_, fun h => (nomatch h)⟩, fun _ _ => ⟨rfl, rfl, rfl, rfl⟩, fun _ _ => rfl⟩
          rintro ⟨e, h⟩
          cases h
      | v6 ip old flow scope =>
          refine ⟨⟨?_, fun h => (nomatch h)⟩, fun _ _ => ⟨rfl, rfl, rfl, rfl⟩, fun _ _ => rfl⟩
          rintro ⟨e, h⟩
          cases h

/-- **`run` leaves alone what the command does not name.** -/
theorem framed_run (step : RegisterStep) :
    RegisterEntry.Framed ⟨step, rs, (rs.run interfaces step.register step.command).2.value,
      (rs.run interfaces step.register step.command).1⟩ where
  failed _ h := run_of_kept interfaces rs step.register (Command.perform_of_error h).1
  mayFail _ h := (Command.perform_of_error h).2
  others _ hb := Table.set_other rs _ hb
  looked h := run_of_kept interfaces rs step.register (Command.perform_of_not_assigns h)
  port port h := by
    obtain ⟨a, c⟩ := step
    subst h
    exact portChange_run interfaces rs a port

end Registers

/-! ## Addresses that their texts stand for -/

/-- An address without flow information that is `unspecified` or is read back from its text. -/
structure Address.ReadsBack (a : Address) : Prop where
  flow : a.flow = 0
  parse : a = .unspecified ∨
    ∀ interfaces : Interfaces, Address.parse interfaces a.text 0 = .quiet (.ok a)

theorem Endpoint.withoutFlow_of_flow {e : Endpoint} (h : e.flow = 0) : e.withoutFlow = e := by
  cases e with
  | v4 ip port => rfl
  | v6 ip port flow scope =>
      have hflow : flow = 0 := h
      rw [hflow]
      rfl

theorem Endpoint.flow_withoutFlow (e : Endpoint) : e.withoutFlow.flow = 0 := by
  cases e <;> rfl

/-- Flow information is all that `text` does not show. -/
theorem Address.readsBack_of_flow {a : Address} (h : a.flow = 0) : a.ReadsBack := by
  refine ⟨h, ?_⟩
  cases a with
  | unspecified => exact .inl rfl
  | specified e =>
      right
      intro interfaces
      have hparse := e.parse_text interfaces 0
      rwa [getD_unlessZero, Endpoint.withoutFlow_of_flow h, e.withPort_port] at hparse

/-! ## The invariant of a run -/

/-- Commands that may bring flow information into a register: an IPv6 endpoint, and a block. -/
def Command.bringsFlow : Command → Bool
  | fromEndpoint (.v6 ..) => true
  | fromSockaddr _ => true
  | _ => false

namespace Address

/-! ### Addresses of a family -/

theorem flow_ofFamily (family : Family) : (ofFamily family).flow = 0 := by
  cases family <;> rfl

theorem flow_of_ofFamilyNumber {number : Int} {b : Address} (h : ofFamilyNumber number = .ok b) :
    b.flow = 0 := by
  unfold ofFamilyNumber at h
  cases hfamily : Family.ofNumber number with
  | error e => rw [hfamily] at h; cases h
  | ok family =>
      rw [hfamily] at h
      cases h
      exact flow_ofFamily family

theorem flow_of_wildcard {family : Family} {port : UInt16} {b : Address}
    (h : wildcard family port = .ok b) : b.flow = 0 := by
  cases family with
  | unspecified => cases h
  | ipv4 => cases h; rfl
  | ipv6 => cases h; rfl

theorem flow_of_loopback {family : Family} {port : UInt16} {b : Address}
    (h : loopback family port = .ok b) : b.flow = 0 := by
  cases family with
  | unspecified => cases h
  | ipv4 => cases h; rfl
  | ipv6 => cases h; rfl

/-! ### Addresses of a text -/

theorem flow_of_parse {interfaces : Interfaces} {t : Text} {defaultPort : UInt16} {b : Address}
    (h : (parse interfaces t defaultPort).value = .ok b) : b.flow = 0 := by
  obtain ⟨e, rfl, hflow⟩ := withoutFlow_of_parse h
  rw [← hflow]
  exact e.flow_withoutFlow

theorem flow_setAddress {a : Address} (ha : a.flow = 0) (interfaces : Interfaces) (t : Text)
    (defaultPort : UInt16) : (a.setAddress interfaces t defaultPort).value.2.flow = 0 := by
  unfold setAddress
  cases hparse : (parse interfaces t defaultPort).value with
  | error e =>
      rw [Logged.value_map, hparse]
      exact ha
  | ok b =>
      rw [Logged.value_map, hparse]
      exact flow_of_parse hparse

/-! ### Addresses made from the register's own -/

theorem flow_setPort (a : Address) (port : UInt16) : (a.setPort port).2.flow = a.flow := by
  cases a with
  | unspecified => rfl
  | specified e => cases e <;> rfl

theorem flow_of_toIpv6 {a b : Address} (h : a.toIpv6 = .ok b) : b.flow = a.flow := by
  cases a with
  | unspecified => cases h
  | specified e =>
      cases e with
      | v4 ip port => cases h; rfl
      | v6 ip port flow scope => cases h; rfl

end Address

namespace Command

/-- `store` of an address without flow information keeps a register without any. -/
theorem flow_store {ε : Type} {before : Address} {r : Logged (Except ε Address)}
    (error : ε → CommandError) (hbefore : before.flow = 0)
    (hr : ∀ b, r.value = .ok b → b.flow = 0) :
    (store before (r.map (Except.mapError error))).1.flow = 0 := by
  obtain ⟨value, events⟩ := r
  cases value with
  | error e => exact hbefore
  | ok b => exact hr b rfl

/-- **`perform` brings no flow information in** unless `bringsFlow` holds, if no register has any. -/
theorem flow_perform {interfaces : Interfaces} {rs : Registers} {a : Register} {c : Command}
    (hrs : ∀ r, (rs r).flow = 0) (hc : c.bringsFlow = false) :
    (c.perform interfaces rs a).1.flow = 0 := by
  have ha := hrs a
  cases c with
  | new family => exact Address.flow_ofFamily family
  | newByNumber number =>
      exact flow_store .operation ha (r := .quiet _) fun _ => Address.flow_of_ofFamilyNumber
  | wildcard family port =>
      exact flow_store .operation ha (r := .quiet _) fun _ => Address.flow_of_wildcard
  | loopback family port =>
      exact flow_store .operation ha (r := .quiet _) fun _ => Address.flow_of_loopback
  | parse text defaultPort => exact flow_store .address ha fun _ => Address.flow_of_parse
  | ofText text => exact flow_store .address ha fun _ => Address.flow_of_parse
  | setAddress text defaultPort => exact Address.flow_setAddress ha interfaces text defaultPort
  | setPort port => exact ((rs a).flow_setPort port).trans ha
  | map =>
      exact flow_store .operation ha (r := .quiet _) fun _ h => (Address.flow_of_toIpv6 h).trans ha
  | copy source => exact hrs source
  | fromIp ip => cases ip <;> rfl
  | fromEndpoint endpoint =>
      cases endpoint with
      | v4 ip port => rfl
      | v6 ip port flow scope => cases hc
  | fromSockaddr block => cases hc
  -- the rest only looks
  | toSockaddr => exact ha
  | sockaddrRoundTrip => rw [perform_of_not_assigns rfl]; exact ha
  | toEndpoint => exact ha
  | describe => exact ha
  | compare other => exact ha

end Command

namespace Registers

variable {interfaces : Interfaces} {rs : Registers}

/-- `run` brings no flow information in unless `bringsFlow` holds. -/
theorem flow_run {a : Register} {c : Command} (hrs : ∀ r, (rs r).flow = 0)
    (hc : c.bringsFlow = false) (r : Register) : ((rs.run interfaces a c).1 r).flow = 0 := by
  show (rs.set a (c.perform interfaces rs a).1 r).flow = 0
  by_cases hr : r = a
  · rw [hr, Table.set_same]
    exact Command.flow_perform hrs hc
  · rw [Table.set_other rs _ hr]
    exact hrs r

/-- **Along a record without `bringsFlow`, no register ever has flow information.** -/
theorem flow_record {steps : List RegisterStep} (hrs : ∀ r, (rs r).flow = 0)
    (hsteps : ∀ step ∈ steps, step.command.bringsFlow = false) :
    ∀ entry ∈ rs.record interfaces steps, ∀ r, (entry.before r).flow = 0 ∧ (entry.after r).flow = 0 := by
  induction steps generalizing rs with
  | nil => exact fun entry h => nomatch h
  | cons step steps ih =>
      obtain ⟨hstep, hrest⟩ := List.forall_mem_cons.mp hsteps
      have hafter : ∀ r, ((rs.run interfaces step.register step.command).1 r).flow = 0 :=
        flow_run hrs hstep
      intro entry hentry
      rcases List.mem_cons.mp hentry with rfl | hentry
      · exact fun r => ⟨hrs r, hafter r⟩
      · exact ih hafter hrest entry hentry

theorem framed_record (steps : List RegisterStep) :
    ∀ entry ∈ rs.record interfaces steps, entry.Framed := by
  induction steps generalizing rs with
  | nil => exact fun entry h => nomatch h
  | cons step steps ih =>
      intro entry hentry
      rcases List.mem_cons.mp hentry with rfl | hentry
      · exact framed_run interfaces rs step
      · exact ih entry hentry

/-- **Failed commands change nothing, and successful ones only what they name.** In every `record`, a step
    that fails leaves all registers alone, a step that succeeds changes its own register at most, and
    `setPort`, which only the `unspecified` address refuses, changes the port and nothing else. In a run
    that assigns no IPv6 endpoint and no block, every register `ReadsBack` at every time: it has no flow
    information, and is `unspecified` or is read back from its own text. -/
theorem record_framed (interfaces : Interfaces) (steps : List RegisterStep) :
    (∀ entry ∈ initial.record interfaces steps, entry.Framed) ∧
    ((∀ step ∈ steps, step.command.bringsFlow = false) →
      ∀ entry ∈ initial.record interfaces steps, ∀ r,
        (entry.before r).ReadsBack ∧ (entry.after r).ReadsBack) := by
  refine ⟨framed_record steps, fun hsteps entry hentry r => ?_⟩
  obtain ⟨hbefore, hafter⟩ := flow_record (fun _ => rfl) hsteps entry hentry r
  exact ⟨Address.readsBack_of_flow hbefore, Address.readsBack_of_flow hafter⟩

/-- A register that is read, mapped and given a port, with a text that `setAddress` refuses on the way, and
    a port that the `unspecified` address refuses. -/
theorem record_framed_mapped :
    let steps : List RegisterStep := [⟨0, .parse "192.0.2.7:9".toList 0⟩, ⟨0, .setAddress "192.0.2.7:x".toList 0⟩,
      ⟨0, .map⟩, ⟨1, .setPort 5⟩, ⟨0, .setPort 5⟩]
    let record := initial.record .loopbackOnly steps
    (∀ step ∈ steps, step.command.bringsFlow = false) ∧
      record.map (fun entry => (entry.after 0).text) =
        ["192.0.2.7:9".toList, "192.0.2.7:9".toList, "[::ffff:192.0.2.7]:9".toList,
          "[::ffff:192.0.2.7]:9".toList, "[::ffff:192.0.2.7]:5".toList] ∧
      ∀ entry ∈ record, entry.Framed ∧ (entry.after 0).ReadsBack := by
  intro steps record
  have hsteps : ∀ step ∈ steps, step.command.bringsFlow = false := by decide
  obtain ⟨hframed, hreads⟩ := record_framed .loopbackOnly steps
  exact ⟨hsteps, rfl, fun entry h => ⟨hframed entry h, (hreads hsteps entry h 0).2⟩⟩

end Registers

end NetKit
