import JtagRemote.Lib.Moments
import JtagRemote.Mpsse.Bounds
import JtagRemote.Mpsse.Legal

/-!
# An account of the buffer

Each call of the driver is a row of calls of the buffer, and of writes past it. Between
any two of these, the bytes that were appended are those that the flushes delivered and
those that wait.
-/

namespace JtagRemote.Mpsse

variable {usb : Usb} {c d : Jtag Mpsse}

/-! ## Calls of the buffer -/

inductive Op where
  | ensure_space (num_bytes : Nat)
  | append (data : List Byte)
  | flush
  /-- Past the buffer. -/
  | write (data : List Byte)
  deriving DecidableEq, Repr

def Op.run (usb : Usb) : Op → MpsseProg Bool
  | .ensure_space num_bytes => mpsse_buffer_ensure_space usb num_bytes
  | .append data => do
    mpsse_buffer_append data
    pure true
  | .flush => mpsse_buffer_flush usb
  | .write data => mpsse_port (ftdi_write_retry usb data)

/-- One after the other, as long as they succeed. -/
def runOps (usb : Usb) : List Op → MpsseProg Bool
  | [] => pure true
  | op :: ops => do
    if ← op.run usb then runOps usb ops else pure false

/-- A command asks for its size. Its first three bytes are appended one by one, and the data behind them at once. -/
def pieces (u : List Byte) : List (List Byte) :=
  (u.take 3).map (fun b => [b]) ++ if u.drop 3 = [] then [] else [u.drop 3]

def commandOps (u : List Byte) : List Op := .ensure_space u.length :: (pieces u).map .append

/-! ## Calls of the driver -/

inductive DriverCall where
  | call (x : Call)
  | recv (fuel : Nat) (out : List Byte) (num_bits : Nat) (flip_tms : Bool)
  deriving DecidableEq, Repr

def DriverCall.run (usb : Usb) : DriverCall → MpsseProg Bool
  | .call x => x.run usb
  | .recv fuel out num_bits flip_tms => do
    let r ← mpsse_jtag_scan_chain_recv usb fuel out num_bits flip_tms
    pure r.1

/-- The arrays of the caller hold the bits. -/
def DriverCall.Valid : DriverCall → Prop
  | .call (.tms_seq data num_bits) => num_bits ≤ 8 * data.length
  | .call (.scan_chain_send data num_bits _ _) => num_bits < 2 ^ 64 ∧ num_bits ≤ 8 * data.length
  | .call _ => True
  | .recv _ out num_bits flip_tms =>
    (flip_tms = true → 1 ≤ num_bits) ∧ num_bits < 2 ^ 64 ∧ num_bits ≤ 8 * out.length

/-- What a call of the driver does to the buffer, from the state `c`. -/
def DriverCall.ops (c : Jtag Mpsse) : DriverCall → List Op
  | .call (.tms_seq data num_bits) => (Call.tms_seq data num_bits).units.flatMap commandOps
  | .call (.scan_chain_send data num_bits flip_tms do_read) =>
    -- `bulk_bits` wraps around when there is no bit to flip TMS with
    if flip_tms = true ∧ num_bits = 0 then [.ensure_space (3 + bulk_bits 0 true / 8)]
    else (Call.scan_chain_send data num_bits flip_tms do_read).units.flatMap commandOps
  | .call (.clock_tck times) => .flush :: (Call.clock_tck times).units.map .write
  | .call (.set_tck_freq freq_mhz) =>
    .flush :: if freq_mhz = 0 ∨ (1 + mpsse_divisor freq_mhz) * 2 = 0 then []
      else [.write (Call.set_tck_freq freq_mhz).units.flatten]
  | .recv _ _ _ _ => if c.dev.mpsse_buffer = [] then [] else commandOps [SEND_IMMEDIATE] ++ [.flush]

/-! ## The account -/

/-- What was appended to the buffer so far, and what each flush delivered. -/
structure Audit where
  appended : List Byte
  flushed : List (List Byte)
  jtag : Jtag Mpsse

/-- The account of one more operation, which leads to `d`. -/
def Audit.after (a : Audit) (op : Op) (d : Jtag Mpsse) : Audit :=
  match op with
  | .append data => ⟨a.appended ++ data, a.flushed, d⟩
  | .ensure_space _ | .flush =>
    ⟨a.appended, a.flushed ++ [d.dev.port.delivered.drop a.jtag.dev.port.delivered.length], d⟩
  | .write _ => ⟨a.appended, a.flushed, d⟩

def Op.step (usb : Usb) (op : Op) (a : Audit) : Option Audit :=
  match op.run usb a.jtag with
  | .ok true d => some (a.after op d)
  | _ => none

/-- Whole commands, in a row. -/
def Commands (l : List Byte) : Prop :=
  ∃ us : List (List Byte), us.flatten = l ∧ ∀ u ∈ us, ∃ cmd, IsCommand mpsseParse u cmd

/-- No byte is lost: each is appended once, and waits or was flushed with the whole commands around it. -/
structure Audit.Kept (a : Audit) : Prop where
  fits : a.jtag.dev.mpsse_buffer.length ≤ BUFFER_LENGTH
  conserved : a.flushed.flatten ++ a.jtag.dev.mpsse_buffer = a.appended
  whole : ∀ l ∈ a.flushed, Commands l

/-- An append finds room for all its bytes, and any other operation finds whole commands. -/
def Audit.Ready (a : Audit) : Op → Prop
  | .append data => a.jtag.dev.mpsse_buffer.length + data.length ≤ BUFFER_LENGTH
  | _ => Commands a.jtag.dev.mpsse_buffer

/-- Between two calls of the driver. -/
structure Audit.Settled (a : Audit) : Prop extends a.Kept where
  commands : Commands a.jtag.dev.mpsse_buffer

/-! ## One operation -/

theorem commands_nil : Commands [] := ⟨[], rfl, by simp⟩

theorem Commands.append {l m : List Byte} (h : Commands l) (h' : Commands m) : Commands (l ++ m) := by
  obtain ⟨us, rfl, hus⟩ := h
  obtain ⟨vs, rfl, hvs⟩ := h'
  exact ⟨us ++ vs, List.flatten_append, List.forall_mem_append.mpr ⟨hus, hvs⟩⟩

theorem commands_one {u : List Byte} {cmd : MpsseCommand} (h : IsCommand mpsseParse u cmd) : Commands u :=
  ⟨[u], by simp, by simpa using ⟨cmd, h⟩⟩

theorem append_ok {l : List Byte} (h : d.dev.mpsse_buffer.length + l.length ≤ BUFFER_LENGTH) :
    mpsse_buffer_append l d = .ok () (appended d l) := by
  unfold mpsse_buffer_append
  rw [bind_of_ok (get_apply d), if_pos h]
  rfl

theorem step_eq {op : Op} {a b : Audit} (h : op.step usb a = some b) :
    ∃ d, op.run usb a.jtag = .ok true d ∧ b = a.after op d := by
  unfold Op.step at h
  split at h
  · rename_i d hrun
    exact ⟨d, hrun, (Option.some.inj h).symm⟩
  · cases h

theorem append_step {l : List Byte} {a b : Audit} (h : (Op.append l).step usb a = some b) :
    b = ⟨a.appended ++ l, a.flushed, appended a.jtag l⟩ := by
  obtain ⟨d, hrun, rfl⟩ := step_eq h
  obtain ⟨_, e, happend, hpure⟩ := bind_eq_ok.mp hrun
  cases hpure
  obtain rfl := append_appends a.jtag l _ _ happend
  rfl

/-- The bytes that wait go out. -/
def Flushes (a b : Audit) : Prop :=
  b.appended = a.appended ∧ b.flushed = a.flushed ++ [a.jtag.dev.mpsse_buffer] ∧ b.jtag.dev.mpsse_buffer = []

theorem flush_delivers {c d : Jtag Mpsse} (h : mpsse_buffer_flush usb c = .ok true d) :
    d.dev.port.delivered = c.dev.port.delivered ++ c.dev.mpsse_buffer ∧ d.dev.mpsse_buffer = [] := by
  obtain ⟨-, hd⟩ := (flush_spec c).ensures _ _ h
  obtain ⟨hemits, hempty⟩ := hd rfl
  have hstream := hemits.stream
  rw [stream, hempty, List.append_nil, List.append_nil] at hstream
  exact ⟨hstream, hempty⟩

theorem flush_step {a b : Audit} (h : Op.flush.step usb a = some b) : Flushes a b := by
  obtain ⟨d, hrun, rfl⟩ := step_eq h
  obtain ⟨hdel, hempty⟩ := flush_delivers hrun
  refine ⟨rfl, ?_, hempty⟩
  show a.flushed ++ [d.dev.port.delivered.drop _] = _
  rw [hdel, List.drop_left]

theorem ensure_space_step {n : Nat} {a b : Audit} (h : (Op.ensure_space n).step usb a = some b) :
    b.jtag.dev.mpsse_buffer.length + n < BUFFER_LENGTH ∧
      (Flushes a b ∨ b = ⟨a.appended, a.flushed ++ [[]], a.jtag⟩) := by
  obtain ⟨d, hrun, rfl⟩ := step_eq h
  refine ⟨((ensure_space_spec a.jtag n).ensures _ _ hrun).2 rfl |>.2, ?_⟩
  have hspace : mpsse_buffer_ensure_space usb n a.jtag = .ok true d := hrun
  unfold mpsse_buffer_ensure_space at hspace
  rw [bind_of_ok (get_apply _)] at hspace
  split at hspace
  · cases hspace
  · split at hspace
    · refine Or.inl ?_
      obtain ⟨hdel, hempty⟩ := flush_delivers hspace
      refine ⟨rfl, ?_, hempty⟩
      show a.flushed ++ [d.dev.port.delivered.drop _] = _
      rw [hdel, List.drop_left]
    · refine Or.inr ?_
      cases hspace
      show (⟨_, a.flushed ++ [a.jtag.dev.port.delivered.drop _], _⟩ : Audit) = _
      rw [List.drop_length]

theorem write_step {l : List Byte} {a b : Audit} (h : (Op.write l).step usb a = some b) :
    b.appended = a.appended ∧ b.flushed = a.flushed ∧ b.jtag.dev.mpsse_buffer = a.jtag.dev.mpsse_buffer := by
  obtain ⟨d, hrun, rfl⟩ := step_eq h
  have hkeeps : Keeps (fun c : Jtag Mpsse => c.dev.mpsse_buffer) (mpsse_port (ftdi_write_retry usb l)) :=
    keeps_focus fun _ _ => rfl
  exact ⟨rfl, rfl, hkeeps _ _ _ hrun⟩

theorem Audit.Settled.flushed {a b : Audit} (h : a.Settled) (hf : Flushes a b) : b.Settled := by
  obtain ⟨happ, hflush, hempty⟩ := hf
  refine ⟨⟨?_, ?_, ?_⟩, ?_⟩
  · rw [hempty]
    exact Nat.zero_le _
  · rw [happ, hflush, hempty, ← h.conserved]
    simp
  · rw [hflush]
    exact List.forall_mem_append.mpr ⟨h.whole, by simpa using h.commands⟩
  · rw [hempty]
    exact commands_nil

/-! ## A row of operations -/

/-- A row that is done between two calls, and keeps the account. -/
def Safe (usb : Usb) (ops : List Op) : Prop :=
  Along (Op.step usb) Audit.Kept Audit.Ready Audit.Settled ops Audit.Settled

theorem safe_nil : Safe usb [] := along_nil fun _ h => h.toKept

/-- The pieces of a command, in the room that it asked for. -/
theorem pieces_safe (ps : List (List Byte)) : Along (Op.step usb) Audit.Kept Audit.Ready
    (fun a => a.Kept ∧ a.jtag.dev.mpsse_buffer.length + ps.flatten.length ≤ BUFFER_LENGTH ∧
      Commands (a.jtag.dev.mpsse_buffer ++ ps.flatten)) (ps.map .append) Audit.Settled := by
  induction ps with
  | nil =>
    rintro a ⟨hkept, -, hcmds⟩ t rest hpass
    cases hpass
    rw [List.flatten_nil, List.append_nil] at hcmds
    exact ⟨hkept, hkept, hcmds⟩
  | cons p ps ih =>
    refine Along.cons ?_ ?_ ih
    · rintro a ⟨hkept, hroom, -⟩
      rw [List.flatten_cons, List.length_append] at hroom
      refine ⟨hkept, ?_⟩
      show _ + p.length ≤ _
      omega
    · rintro a b ⟨hkept, hroom, hcmds⟩ hstep
      obtain rfl := append_step hstep
      rw [List.flatten_cons, List.length_append] at hroom
      rw [List.flatten_cons, ← List.append_assoc] at hcmds
      have hlen : (appended a.jtag p).dev.mpsse_buffer.length = a.jtag.dev.mpsse_buffer.length + p.length :=
        List.length_append
      refine ⟨⟨?_, ?_, hkept.whole⟩, ?_, hcmds⟩
      · show (appended a.jtag p).dev.mpsse_buffer.length ≤ _
        omega
      · show _ ++ (a.jtag.dev.mpsse_buffer ++ p) = a.appended ++ p
        rw [← hkept.conserved, List.append_assoc]
      · show (appended a.jtag p).dev.mpsse_buffer.length + _ ≤ _
        omega

theorem pieces_flatten (u : List Byte) : (pieces u).flatten = u := by
  have hsingle : ∀ l : List Byte, (l.map fun b => [b]).flatten = l := by
    intro l
    induction l with
    | nil => rfl
    | cons b l ih => rw [List.map_cons, List.flatten_cons, ih, List.singleton_append]
  rw [pieces, List.flatten_append, hsingle]
  split
  · rename_i hnil
    rw [List.flatten_nil, List.append_nil]
    conv_rhs => rw [← List.take_append_drop 3 u, hnil, List.append_nil]
  · rw [List.flatten_singleton, List.take_append_drop]

theorem command_safe {u : List Byte} {cmd : MpsseCommand} (hu : IsCommand mpsseParse u cmd) : Safe usb (commandOps u) := by
  refine Along.cons (fun a ha => ⟨ha.toKept, ha.commands⟩) ?_ (pieces_safe (pieces u))
  intro a b ha hstep
  rw [pieces_flatten]
  obtain ⟨hroom, hcase⟩ := ensure_space_step hstep
  have hb : b.Settled := by
    rcases hcase with hflush | rfl
    · exact ha.flushed hflush
    · refine ⟨⟨ha.fits, ?_, ?_⟩, ha.commands⟩
      · simpa using ha.conserved
      · exact List.forall_mem_append.mpr ⟨ha.whole, by simpa using commands_nil⟩
  exact ⟨hb.toKept, Nat.le_of_lt hroom, hb.commands.append (commands_one hu)⟩

theorem flush_safe {ops : List Op} (h : Safe usb ops) : Safe usb (.flush :: ops) :=
  Along.cons (fun _ ha => ⟨ha.toKept, ha.commands⟩) (fun _ _ ha hstep => ha.flushed (flush_step hstep)) h

theorem writes_safe (us : List (List Byte)) : Safe usb (us.map .write) := by
  induction us with
  | nil => exact safe_nil
  | cons u us ih =>
    refine Along.cons (fun a ha => ⟨ha.toKept, ha.commands⟩) ?_ ih
    intro a b ha hstep
    obtain ⟨happ, hflush, hbuf⟩ := write_step hstep
    obtain ⟨⟨hfits, hcons, hwhole⟩, hcmds⟩ := ha
    rw [← hbuf] at hfits hcons hcmds
    rw [← happ, ← hflush] at hcons
    rw [← hflush] at hwhole
    exact ⟨⟨hfits, hcons, hwhole⟩, hcmds⟩

theorem send_immediate_whole : IsCommand mpsseParse [SEND_IMMEDIATE] .other := whole_one rfl

theorem refused_safe {n : Nat} (hn : BUFFER_LENGTH ≤ n) (ops : List Op) : Safe usb (.ensure_space n :: ops) := by
  intro a ha t rest hpass
  cases hpass with
  | here => exact ⟨ha.toKept, ha.commands⟩
  | next hstep =>
    have hroom := (ensure_space_step hstep).1
    omega

/-- A scan whose bytes have no room asks for them first. -/
theorem scan_ops_refused {data : List Byte} {n : Nat} {flip : Bool} (read : Bool)
    (hbig : BUFFER_LENGTH ≤ 3 + (if flip then n - 1 else n) / 8) (hlen : n ≤ 8 * data.length) :
    ∃ ops, (Call.scan_chain_send data n flip read).units.flatMap commandOps =
      .ensure_space (3 + (if flip then n - 1 else n) / 8) :: ops := by
  have hle : (if flip then n - 1 else n) ≤ n := by split <;> omega
  have hsize : BUFFER_LENGTH = 8192 := rfl
  simp only [Call.units, Call.codes, scanCodes, List.map_append, List.append_assoc, List.flatMap_append]
  generalize (if flip then n - 1 else n) = bulk at hbig hle
  have hne : bulk / 8 ≠ 0 := by omega
  have hunit : ∀ (u : List Byte) (ops : List Op), commandOps u ++ ops =
      .ensure_space u.length :: ((pieces u).map .append ++ ops) := fun _ _ => rfl
  rw [bytesCodes, if_neg hne, List.map_singleton, List.flatMap_singleton, hunit]
  have hlength : (bytesOp read :: BitVec.ofNat 8 ((bulk / 8 - 1) % 256) :: BitVec.ofNat 8 ((bulk / 8 - 1) / 256) ::
      data.take (bulk / 8)).length = 3 + bulk / 8 := by
    simp only [List.length_cons, List.length_take]
    omega
  rw [hlength]
  exact ⟨_, rfl⟩

theorem units_safe {us : List (List Byte)} (h : ∀ u ∈ us, ∃ cmd, IsCommand mpsseParse u cmd) :
    Safe usb (us.flatMap commandOps) := by
  refine along_flatMap (fun _ ha => ha.toKept) fun u hu => ?_
  obtain ⟨cmd, hcmd⟩ := h u hu
  exact command_safe hcmd

theorem bulk_wraps : BUFFER_LENGTH ≤ 3 + bulk_bits 0 true / 8 := by decide

/-- Every call of the driver keeps the account. -/
theorem ops_safe {call : DriverCall} (hvalid : call.Valid) (c : Jtag Mpsse) : Safe usb (call.ops c) := by
  have hwhole : ∀ ws : List Coded, (∀ w ∈ ws, Whole w) →
      ∀ u ∈ ws.map Prod.fst, ∃ cmd, IsCommand mpsseParse u cmd := by
    intro ws hws u hu
    obtain ⟨w, hw, rfl⟩ := List.mem_map.mp hu
    exact ⟨w.2, hws w hw⟩
  cases call with
  | recv fuel out n flip =>
    simp only [DriverCall.ops]
    split
    · exact safe_nil
    · exact (command_safe send_immediate_whole).append (flush_safe safe_nil)
  | call x =>
    cases x with
    | tms_seq data n => exact units_safe (hwhole _ (tmsCodes_whole data n))
    | scan_chain_send data n flip read =>
      obtain ⟨hn, hlen⟩ := hvalid
      have hle : (if flip then n - 1 else n) ≤ n := by split <;> omega
      simp only [DriverCall.ops]
      split
      · exact refused_safe bulk_wraps []
      · by_cases hbig : BUFFER_LENGTH ≤ 3 + (if flip then n - 1 else n) / 8
        · obtain ⟨ops, hops⟩ := scan_ops_refused read hbig hlen
          rw [hops]
          exact refused_safe hbig ops
        · have hsize : BUFFER_LENGTH = 8192 := rfl
          exact units_safe (hwhole _ (scanCodes_whole data n flip read (by omega) (by omega)))
    | clock_tck times => exact flush_safe (writes_safe _)
    | set_tck_freq freq =>
      simp only [DriverCall.ops]
      split
      · exact flush_safe safe_nil
      · exact flush_safe (writes_safe [_])

/-! ## The driver does these operations -/

/-- Both do the same, from any state. -/
def Follows (usb : Usb) (p : MpsseProg Bool) (ops : List Op) : Prop :=
  ∀ c, ∃ r d, p c = .ok r d ∧ runOps usb ops c = .ok r d

theorem follows_done : Follows usb (pure true) [] := fun c => ⟨true, c, rfl, rfl⟩

theorem runOps_append (ops ops' : List Op) (c : Jtag Mpsse) :
    runOps usb (ops ++ ops') c = (do if ← runOps usb ops then runOps usb ops' else pure false : MpsseProg Bool) c := by
  induction ops generalizing c with
  | nil => rfl
  | cons op ops ih =>
    rw [List.cons_append, runOps, runOps, bind_apply, bind_apply, bind_apply]
    cases op.run usb c with
    | error e d => rfl
    | ok r d =>
      cases r with
      | false => rfl
      | true =>
        refine (ih d).trans ?_
        rw [bind_apply]
        rfl

theorem Follows.both {p q : MpsseProg Bool} {ops ops' : List Op} (hp : Follows usb p ops) (hq : Follows usb q ops') :
    Follows usb (do if ← p then q else pure false) (ops ++ ops') := by
  intro c
  obtain ⟨r, d, hrun, hops⟩ := hp c
  rw [bind_of_ok hrun, runOps_append, bind_of_ok hops]
  cases r with
  | false => exact ⟨false, d, rfl, rfl⟩
  | true => exact hq d

theorem forWhile_follows {n : Nat} {f : Nat → MpsseProg Bool} {g : Nat → List Op}
    (h : ∀ i < n, Follows usb (f i) (g i)) : Follows usb (forWhile n f) ((List.range n).flatMap g) := by
  induction n with
  | zero => exact follows_done
  | succ n ih =>
    have hlast : ((List.range (n + 1)).flatMap g) = (List.range n).flatMap g ++ g n := by
      rw [List.range_succ, List.flatMap_append, List.flatMap_singleton]
    rw [hlast]
    exact (ih fun i hi => h i (by omega)).both (h n (by omega))

theorem pieces_run {ps : List (List Byte)} (h : c.dev.mpsse_buffer.length + ps.flatten.length ≤ BUFFER_LENGTH) :
    runOps usb (ps.map .append) c = .ok true (appended c ps.flatten) := by
  induction ps generalizing c with
  | nil =>
    have hsame : appended c [] = c := by simp [appended]
    rw [List.flatten_nil, hsame]
    rfl
  | cons p ps ih =>
    rw [List.flatten_cons, List.length_append] at h
    have hp : (Op.append p).run usb c = .ok true (appended c p) := bind_of_ok (append_ok (by omega))
    have hroom : (appended c p).dev.mpsse_buffer.length + ps.flatten.length ≤ BUFFER_LENGTH := by
      show (c.dev.mpsse_buffer ++ p).length + _ ≤ _
      rw [List.length_append]
      omega
    rw [List.map_cons, runOps, bind_of_ok hp, List.flatten_cons, ← appended_appended]
    exact ih hroom

/-- A command that finds room for its size. -/
theorem command_follows {u : List Byte} {n : Nat} {p : MpsseProg Bool} (hn : n = u.length)
    (hp : ∀ d, d.dev.mpsse_buffer.length + u.length ≤ BUFFER_LENGTH → p d = .ok true (appended d u)) :
    Follows usb (do if ← mpsse_buffer_ensure_space usb n then p else pure false) (commandOps u) := by
  intro c
  obtain ⟨r, d, hspace, -, hroom⟩ := @ensure_space_spec usb c u.length
  have hrun : (Op.ensure_space u.length).run usb c = .ok r d := hspace
  subst hn
  rw [bind_of_ok hspace, commandOps, runOps, bind_of_ok hrun]
  cases r with
  | false => exact ⟨false, d, rfl, rfl⟩
  | true =>
    have hfits : d.dev.mpsse_buffer.length + u.length ≤ BUFFER_LENGTH := Nat.le_of_lt (hroom rfl).2
    refine ⟨true, appended d u, hp d hfits, ?_⟩
    have hpieces := @pieces_run usb d (pieces u) (by rwa [pieces_flatten])
    rwa [pieces_flatten] at hpieces

/-- Three bytes, the last one computed in between. -/
theorem append_three_eq {x y z : Byte} {p : MpsseProg Byte} (hp : ∀ d, p d = .ok z d)
    (h : d.dev.mpsse_buffer.length + 3 ≤ BUFFER_LENGTH) : (do
      mpsse_buffer_append_byte x
      mpsse_buffer_append_byte y
      let b ← p
      mpsse_buffer_append_byte b
      pure true : MpsseProg Bool) d = .ok true (appended d [x, y, z]) := by
  obtain ⟨r, e, hrun, rfl⟩ := append_three_returns d x y p h fun d => ⟨z, d, hp d, rfl⟩
  obtain ⟨-, rfl⟩ := append_three_appends d x y p z (fun d => Returns.ensures ⟨z, d, hp d, rfl, rfl⟩) _ _ hrun
  exact hrun

theorem tms_seq_follows {data : List Byte} {n : Nat} (hlen : n ≤ 8 * data.length) :
    Follows usb (mpsse_jtag_tms_seq usb data n) ((Call.tms_seq data n).units.flatMap commandOps) := by
  have hops : (Call.tms_seq data n).units.flatMap commandOps =
      (List.range ((n + 7) / 8)).flatMap fun i => commandOps (tmsCode data n i).1 := by
    simp only [Call.units, Call.codes, tmsCodes, List.map_map, List.flatMap_map]
    rfl
  rw [hops]
  refine forWhile_follows fun i hi => command_follows rfl fun d hroom => ?_
  exact append_three_eq (fun e => index_ok (by omega) e) hroom

theorem append_bytes_eq {data : List Byte} {len : Nat} (x y z : Byte) (hlen : len ≤ data.length)
    (h : d.dev.mpsse_buffer.length + (3 + len) ≤ BUFFER_LENGTH) : (do
      mpsse_buffer_append_byte x
      mpsse_buffer_append_byte y
      mpsse_buffer_append_byte z
      let bytes ← bytes_at data 0 len
      mpsse_buffer_append bytes
      pure true : MpsseProg Bool) d = .ok true (appended d (x :: y :: z :: data.take len)) := by
  have hgrow : ∀ (e : Jtag Mpsse) (l : List Byte),
      (appended e l).dev.mpsse_buffer.length = e.dev.mpsse_buffer.length + l.length := fun _ _ => List.length_append
  have hx : mpsse_buffer_append_byte x d = .ok () (appended d [x]) := append_ok (by simp only [List.length_singleton]; omega)
  have hy : mpsse_buffer_append_byte y (appended d [x]) = .ok () (appended d [x, y]) := by
    have := append_ok (d := appended d [x]) (l := [y]) (by simp only [hgrow, List.length_singleton]; omega)
    rwa [appended_appended] at this
  have hz : mpsse_buffer_append_byte z (appended d [x, y]) = .ok () (appended d [x, y, z]) := by
    have := append_ok (d := appended d [x, y]) (l := [z]) (by simp only [hgrow, List.length_cons, List.length_nil]; omega)
    rwa [appended_appended] at this
  have hbytes : (bytes_at data 0 len : MpsseProg (List Byte)) (appended d [x, y, z]) =
      .ok (data.take len) (appended d [x, y, z]) := bytes_at_ok (by omega) _
  have hall : mpsse_buffer_append (data.take len) (appended d [x, y, z]) =
      .ok () (appended d (x :: y :: z :: data.take len)) := by
    have := append_ok (d := appended d [x, y, z]) (l := data.take len)
      (by simp only [hgrow, List.length_cons, List.length_nil, List.length_take]; omega)
    rwa [appended_appended] at this
  rw [bind_of_ok hx, bind_of_ok hy, bind_of_ok hz, bind_of_ok hbytes, bind_of_ok hall]
  rfl

theorem units_one (w : Coded) : (([w] : List Coded).map Prod.fst).flatMap commandOps = commandOps w.1 := by
  rw [List.map_singleton, List.flatMap_singleton]

theorem send_bytes_follows {data : List Byte} {len : Nat} (read : Bool) (hlen : len ≤ data.length) :
    Follows usb (mpsse_send_bytes usb data len (readFlag read))
      (((bytesCodes data len read).map Prod.fst).flatMap commandOps) := by
  have hop : readFlag read ||| MPSSE_DO_WRITE ||| MPSSE_LSB ||| MPSSE_WRITE_NEG = bytesOp read := by
    cases read <;> rfl
  unfold mpsse_send_bytes bytesCodes
  split
  · exact follows_done
  · rw [hop, units_one]
    have hsize : 3 + len = (bytesOp read :: BitVec.ofNat 8 ((len - 1) % 256) :: BitVec.ofNat 8 ((len - 1) / 256) ::
        data.take len).length := by
      simp only [List.length_cons, List.length_take]
      omega
    exact command_follows hsize fun d hroom => append_bytes_eq _ _ _ hlen (by rwa [hsize])

theorem send_rest_follows {data : List Byte} {bulk : Nat} (read : Bool) (hlen : bulk ≤ 8 * data.length) :
    Follows usb (mpsse_send_rest usb data bulk (readFlag read))
      (((restCodes data bulk read).map Prod.fst).flatMap commandOps) := by
  have hop : readFlag read ||| MPSSE_DO_WRITE ||| MPSSE_LSB ||| MPSSE_WRITE_NEG ||| MPSSE_BITMODE = bitsOp read := by
    cases read <;> rfl
  unfold mpsse_send_rest restCodes
  split
  · exact follows_done
  · rw [hop, units_one]
    exact command_follows rfl fun d hroom => append_three_eq (fun e => index_ok (by omega) e) hroom

/-- The TAP state is not the buffer's. -/
theorem ensure_space_state {n : Nat} {r : Bool} (st : JtagState) (h : mpsse_buffer_ensure_space usb n c = .ok r d) :
    mpsse_buffer_ensure_space usb n { c with state := st } = .ok r { d with state := st } := by
  have hport : ∀ {ok : Bool} {e : Jtag Mpsse} (data : List Byte), mpsse_port (ftdi_write_retry usb data) c = .ok ok e →
      mpsse_port (ftdi_write_retry usb data) { c with state := st } = .ok ok { e with state := st } := by
    intro ok e data hrun
    unfold mpsse_port focus at hrun ⊢
    split at hrun
    · rename_i a t hwrite
      cases hrun
      simp only [hwrite]
    · cases hrun
  unfold mpsse_buffer_ensure_space mpsse_buffer_flush at h ⊢
  rw [bind_of_ok (get_apply _)] at h ⊢
  split at h
  · rename_i hbig
    cases h
    rw [if_pos hbig]
    rfl
  · rename_i hbig
    rw [if_neg hbig]
    split at h
    · rename_i hfull
      rw [if_pos hfull]
      rw [bind_of_ok (get_apply _)] at h ⊢
      split at h
      · rename_i hempty
        cases h
        rw [if_pos hempty]
        rfl
      · rename_i hempty
        rw [if_neg hempty]
        obtain ⟨ok, e, hwrite, hrest⟩ := bind_eq_ok.mp h
        rw [bind_of_ok (hport _ hwrite)]
        cases hrest
        rfl
    · rename_i hfull
      cases h
      rw [if_neg hfull]
      rfl

/-- The last bit moves the TAP besides. -/
theorem send_last_follows {data : List Byte} {n : Nat} (read : Bool) (hn : 1 ≤ n) (hn' : n < 2 ^ 64)
    (hlen : n ≤ 8 * data.length) (c : Jtag Mpsse) :
    ∃ r d, mpsse_send_last usb data n (readFlag read) c = .ok r { d with state := next_state c.state true } ∧
      runOps usb (commandOps (lastCode data n read).1) c = .ok r d := by
  have hop : readFlag read ||| MPSSE_WRITE_TMS ||| MPSSE_LSB ||| MPSSE_BITMODE ||| MPSSE_WRITE_NEG = tmsOp read := by
    cases read <;> rfl
  obtain ⟨r, d, hspace, -, hroom⟩ := @ensure_space_spec usb c 3
  have hspace' := ensure_space_state (next_state c.state true) hspace
  have hrun : (Op.ensure_space 3).run usb c = .ok r d := hspace
  have hops : runOps usb (commandOps (lastCode data n read).1) c =
      (if r then runOps usb ((pieces (lastCode data n read).1).map .append) else pure false : MpsseProg Bool) d :=
    bind_of_ok hrun
  have hbit : (bit_of data (n - 1) : MpsseProg Bool) { c with state := next_state c.state true } =
      .ok (bitAt data (n - 1)) { c with state := next_state c.state true } := bit_of_ok (by omega) _
  unfold mpsse_send_last
  rw [size_sub_of_le hn hn', hop, bind_of_ok (modify_apply _ c), bind_of_ok hbit, bind_of_ok hspace', hops]
  cases r with
  | false => exact ⟨false, d, rfl, rfl⟩
  | true =>
    have hfits : d.dev.mpsse_buffer.length + 3 ≤ BUFFER_LENGTH := Nat.le_of_lt (hroom rfl).2
    refine ⟨true, appended d (lastCode data n read).1, ?_, ?_⟩
    · exact append_three_eq (p := pure (lastByte (bitAt data (n - 1)))) (fun _ => rfl) hfits
    · have hpieces := @pieces_run usb d (pieces (lastCode data n read).1)
        (by rw [pieces_flatten]; exact hfits)
      rwa [pieces_flatten] at hpieces

/-- A call that sends does these operations, and ends with the same buffer and port. -/
def Performs (usb : Usb) (p : MpsseProg Bool) (ops : List Op) (c : Jtag Mpsse) : Prop :=
  ∃ r d k, p c = .ok r d ∧ runOps usb ops c = .ok r k ∧ k.dev = d.dev

theorem Follows.performs {p : MpsseProg Bool} {ops : List Op} (h : Follows usb p ops) (c : Jtag Mpsse) :
    Performs usb p ops c := by
  obtain ⟨r, d, hrun, hops⟩ := h c
  exact ⟨r, d, d, hrun, hops, rfl⟩

theorem Follows.then_performs {p q : MpsseProg Bool} {ops ops' : List Op} (hp : Follows usb p ops)
    (hq : ∀ d, Performs usb q ops' d) (c : Jtag Mpsse) :
    Performs usb (do if ← p then q else pure false) (ops ++ ops') c := by
  obtain ⟨r, d, hrun, hops⟩ := hp c
  unfold Performs
  rw [bind_of_ok hrun, runOps_append, bind_of_ok hops]
  cases r with
  | false => exact ⟨false, d, d, rfl, rfl, rfl⟩
  | true => exact hq d

theorem bulk_bits_eq {n : Nat} {flip : Bool} (hn : flip = true → 1 ≤ n) (hn' : n < 2 ^ 64) :
    bulk_bits n flip = if flip then n - 1 else n := by
  cases flip with
  | false => simp [bulk_bits]
  | true => exact bulk_bits_of_pos true (hn rfl) hn'

theorem scan_performs {data : List Byte} {n : Nat} {flip : Bool} (read : Bool) (hn' : n < 2 ^ 64)
    (hlen : n ≤ 8 * data.length) (c : Jtag Mpsse) :
    Performs usb (mpsse_jtag_scan_chain_send usb data n flip read)
      ((DriverCall.call (.scan_chain_send data n flip read)).ops c) c := by
  simp only [DriverCall.ops]
  split
  · rename_i hnone
    obtain ⟨rfl, rfl⟩ := hnone
    have hfits : ¬ Fits 0 true := by decide
    have hspace : mpsse_buffer_ensure_space usb (3 + bulk_bits 0 true / 8) c = .ok false c := by
      unfold mpsse_buffer_ensure_space
      rw [bind_of_ok (get_apply c), if_pos bulk_wraps]
      rfl
    refine ⟨false, c, c, scan_chain_send_refused data read hfits c, ?_, rfl⟩
    exact bind_of_ok (x := (Op.ensure_space (3 + bulk_bits 0 true / 8)).run usb) hspace
  · rename_i hbits
    have hn : flip = true → 1 ≤ n := fun hflip => Nat.pos_of_ne_zero fun hzero => hbits ⟨hflip, hzero⟩
    have hbulk : (if flip then n - 1 else n) ≤ n := by split <;> omega
    have hunits : (Call.scan_chain_send data n flip read).units.flatMap commandOps =
        ((bytesCodes data ((if flip then n - 1 else n) / 8) read).map Prod.fst).flatMap commandOps ++
          (((restCodes data (if flip then n - 1 else n) read).map Prod.fst).flatMap commandOps ++
            ((if flip then [lastCode data n read] else []).map Prod.fst).flatMap commandOps) := by
      simp only [Call.units, Call.codes, scanCodes, List.map_append, List.flatMap_append, List.append_assoc]
    rw [hunits]
    unfold mpsse_jtag_scan_chain_send
    rw [bulk_bits_eq hn hn']
    generalize (if flip then n - 1 else n) = bulk at hbulk
    refine (send_bytes_follows read (by omega)).then_performs (fun d => ?_) c
    refine (send_rest_follows read (by omega)).then_performs (fun e => ?_) d
    cases flip with
    | false => exact follows_done.performs e
    | true =>
      obtain ⟨r, f, hlast, hops⟩ := @send_last_follows usb _ _ read (hn rfl) hn' hlen e
      exact ⟨r, _, f, hlast, by rw [if_pos rfl, units_one]; exact hops, rfl⟩

theorem op_follows {op : Op} (h : ∀ c, Returns (op.run usb) c fun _ _ => True) : Follows usb (op.run usb) [op] := by
  intro c
  obtain ⟨r, d, hrun, -⟩ := h c
  refine ⟨r, d, hrun, (bind_of_ok hrun).trans ?_⟩
  cases r <;> rfl

theorem flush_follows : Follows usb (mpsse_buffer_flush usb) [.flush] := by
  have h : ∀ c, Returns (Op.flush.run usb) c fun _ _ => True := fun c => (flush_spec c).mono fun _ _ _ => trivial
  exact op_follows h

theorem write_follows (data : List Byte) : Follows usb (mpsse_port (ftdi_write_retry usb data)) [.write data] := by
  have h : ∀ c, Returns ((Op.write data).run usb) c fun _ _ => True := by
    intro c
    obtain ⟨r, t, hrun, -⟩ := ftdi_write_retry_spec usb data c.dev.port
    exact ⟨r, withPort c t, port_ok hrun, trivial⟩
  exact op_follows h

theorem clock_follows (times : Nat) :
    Follows usb (mpsse_jtag_clock_tck usb times) ((DriverCall.call (.clock_tck times)).ops c) := by
  have hbytes : Follows usb (mpsse_clock_bytes usb (times / 8))
      (((clockBytesCodes (times / 8)).map Prod.fst).map .write) := by
    unfold mpsse_clock_bytes clockBytesCodes
    split
    · exact follows_done
    · exact write_follows _
  have hrest : Follows usb (mpsse_clock_rest usb times) (((clockRestCodes times).map Prod.fst).map .write) := by
    unfold mpsse_clock_rest clockRestCodes
    split
    · exact follows_done
    · exact write_follows _
  have hops : (DriverCall.call (.clock_tck times)).ops c = [.flush] ++
      (((clockBytesCodes (times / 8)).map Prod.fst).map .write ++ ((clockRestCodes times).map Prod.fst).map .write) := by
    simp only [DriverCall.ops, Call.units, Call.codes, clockCodes, List.map_append, List.singleton_append]
  rw [hops]
  exact flush_follows.both (hbytes.both hrest)

theorem pending_performs (fuel : Nat) (out : List Byte) (n : Nat) (flip : Bool) (c : Jtag Mpsse) :
    ∃ r d, mpsse_send_pending usb c = .ok r d ∧ runOps usb ((DriverCall.recv fuel out n flip).ops c) c = .ok r d := by
  unfold mpsse_send_pending
  simp only [DriverCall.ops]
  rw [bind_of_ok (is_empty_ok c)]
  split
  · rename_i hempty
    have hnil : c.dev.mpsse_buffer = [] := by simpa using hempty
    rw [if_pos hnil]
    exact ⟨true, c, rfl, rfl⟩
  · rename_i hempty
    have hne : c.dev.mpsse_buffer ≠ [] := by simpa using hempty
    rw [if_neg hne]
    have hcommand : Follows usb (do
        if ← mpsse_buffer_ensure_space usb 1 then (do
          mpsse_buffer_append_byte SEND_IMMEDIATE
          pure true) else pure false) (commandOps [SEND_IMMEDIATE]) :=
      command_follows rfl fun d hroom => bind_of_ok (append_ok hroom)
    obtain ⟨r, d, hrun, hops⟩ := hcommand.both flush_follows c
    refine ⟨r, d, ?_, hops⟩
    rw [← hrun]
    obtain ⟨r₁, d₁, hspace, -, hroom⟩ := @ensure_space_spec usb c 1
    rw [bind_of_ok hspace, bind_apply, bind_of_ok hspace]
    cases r₁ with
    | false => rfl
    | true =>
      have hfits : d₁.dev.mpsse_buffer.length + [SEND_IMMEDIATE].length ≤ BUFFER_LENGTH := Nat.le_of_lt (hroom rfl).2
      have happend : mpsse_buffer_append_byte SEND_IMMEDIATE d₁ = .ok () (appended d₁ [SEND_IMMEDIATE]) :=
        append_ok hfits
      rw [if_pos rfl, if_pos rfl, bind_of_ok happend, bind_of_ok happend]
      rfl

theorem set_tck_freq_performs (freq : Nat) (c : Jtag Mpsse) :
    Ends (mpsse_set_tck_freq usb freq) c InRange fun r d =>
      runOps usb ((DriverCall.call (.set_tck_freq freq)).ops c) c = .ok r d := by
  have hdiv : InRange .div_by_zero := by decide
  obtain ⟨ok, d, hflush, hops⟩ := @flush_follows usb c
  have hhead : ∀ ops, runOps usb (.flush :: ops) c = (if ok then runOps usb ops else pure false : MpsseProg Bool) d :=
    fun ops => bind_of_ok (x := Op.flush.run usb) hflush
  have hunits : (Call.set_tck_freq freq).units.flatten =
      [TCK_DIVISOR, (mpsse_divisor freq).setWidth 8, 0x00, DIS_DIV_5] := rfl
  unfold mpsse_set_tck_freq
  refine Ends.of_eq_bind hflush ?_
  simp only [DriverCall.ops]
  rw [hhead, hunits]
  generalize mpsse_divisor freq = divisor
  cases ok with
  | false => exact ends_pure rfl
  | true =>
    refine ends_ite (fun _ => ?_) fun hfalse => absurd rfl hfalse
    refine ends_ite (fun _ => ends_throw hdiv) fun hfreq => ?_
    refine ends_ite (fun _ => ends_throw hdiv) fun hhalf => ?_
    rw [if_neg (not_or.mpr ⟨hfreq, hhalf⟩)]
    obtain ⟨r, e, hwrite, hops'⟩ := @write_follows usb [TCK_DIVISOR, divisor.setWidth 8, 0x00, DIS_DIV_5] d
    exact .of_ok hwrite hops'

/-- The call does its operations: it ends with the same buffer and the same transfers, and only where they all succeed
with success. -/
def Accomplishes (usb : Usb) (call : DriverCall) (c : Jtag Mpsse) : Prop :=
  Ends (call.run usb) c InRange fun r d => ∃ ok k, runOps usb (call.ops c) c = .ok ok k ∧
    k.dev.mpsse_buffer = d.dev.mpsse_buffer ∧ k.dev.port.transfers = d.dev.port.transfers ∧ (r = true → ok = true)

theorem read_data_keeps_transfers (len : Nat) : Keeps Port.transfers (ftdi_read_data usb len) := by
  intro p
  refine Ensures.get_bind ?_
  split
  · exact Ensures.set_bind (ensures_pure rfl)
  · exact Ensures.set_bind (ensures_pure rfl)

theorem recv_accomplishes {fuel n : Nat} {out : List Byte} {flip : Bool} (hn : flip = true → 1 ≤ n) (hn' : n < 2 ^ 64)
    (hlen : n ≤ 8 * out.length) (c : Jtag Mpsse) : Accomplishes usb (.recv fuel out n flip) c := by
  obtain ⟨ok, k, hsend, hops⟩ := @pending_performs usb fuel out n flip c
  have hport : ∀ len, Keeps (fun c : Jtag Mpsse => (c.dev.mpsse_buffer, c.dev.port.transfers))
      (mpsse_port (ftdi_read_data usb len)) := by
    intro len s
    refine Ensures.mono (Ensures.focus (read_data_keeps_transfers len s.dev.port)) ?_
    rintro _ _ ⟨p, hp, rfl⟩
    exact congrArg (Prod.mk s.dev.mpsse_buffer) hp
  have hkeeps := scan_chain_recv_keeps hport hsend fuel out n flip
  have hverdict : Ensures (mpsse_jtag_scan_chain_recv usb fuel out n flip) c fun r _ => r.1 = true → ok = true := by
    refine Ensures.of_eq_bind hsend (ensures_ite (fun hok => ?_) fun _ => ensures_pure Bool.noConfusion)
    exact fun _ _ _ _ => hok
  refine Ends.bind (((scan_chain_recv_ends hn hn' hlen).and hkeeps).and hverdict) ?_
  rintro r d ⟨⟨-, hsame⟩, hr⟩
  obtain ⟨hbuffer, htransfers⟩ := Prod.mk.inj hsame
  exact ends_pure ⟨ok, k, hops, hbuffer.symm, htransfers.symm, hr⟩

theorem Performs.accomplishes {call : DriverCall} (h : Performs usb (call.run usb) (call.ops c) c) :
    Accomplishes usb call c := by
  obtain ⟨r, d, k, hrun, hops, hdev⟩ := h
  exact .of_ok hrun ⟨r, k, hops, by rw [hdev], by rw [hdev], id⟩

theorem call_accomplishes {call : DriverCall} (hvalid : call.Valid) (c : Jtag Mpsse) : Accomplishes usb call c := by
  cases call with
  | recv fuel out n flip =>
    obtain ⟨hn, hn', hlen⟩ := hvalid
    exact recv_accomplishes hn hn' hlen c
  | call x =>
    cases x with
    | tms_seq data n => exact ((tms_seq_follows hvalid).performs c).accomplishes
    | scan_chain_send data n flip read => exact (scan_performs read hvalid.1 hvalid.2 c).accomplishes
    | clock_tck times => exact ((clock_follows times).performs c).accomplishes
    | set_tck_freq freq =>
      exact (set_tck_freq_performs freq c).mono fun r d hops => ⟨r, d, hops, rfl, rfl, id⟩

/-! ## Runs -/

/-- The next operation asks for more than the buffer can hold. -/
def Refused (ops : List Op) : Prop := ∃ n rest, ops = .ensure_space n :: rest ∧ BUFFER_LENGTH ≤ n

/-- A run of calls in which each write succeeds: the operations of a call are all done, or one is refused. -/
inductive Reached (usb : Usb) (c : Jtag Mpsse) : Audit → Prop
  | start : Reached usb c ⟨[], [], c⟩
  | call {a b : Audit} {call : DriverCall} {rest : List Op} {ok : Bool} {d : Jtag Mpsse} : Reached usb c a → call.Valid →
      Passes (Op.step usb) a (call.ops a.jtag) b rest → rest = [] ∨ Refused rest → call.run usb a.jtag = .ok ok d →
      Reached usb c { b with jtag := d }

theorem ensure_space_refused {n : Nat} (hn : BUFFER_LENGTH ≤ n) (c : Jtag Mpsse) :
    mpsse_buffer_ensure_space usb n c = .ok false c := by
  unfold mpsse_buffer_ensure_space
  rw [bind_of_ok (get_apply c), if_pos hn]
  rfl

theorem passes_run {a b : Audit} {ops rest : List Op} (h : Passes (Op.step usb) a ops b rest) :
    runOps usb ops a.jtag = runOps usb rest b.jtag := by
  induction h with
  | here => rfl
  | next hstep _ ih =>
    obtain ⟨d, hrun, rfl⟩ := step_eq hstep
    rw [runOps, bind_of_ok hrun]
    refine Eq.trans ?_ ih
    cases ‹Op› <;> rfl

/-- What is left of a call that came to its end changes nothing. -/
theorem rest_changes_nothing {rest : List Op} (h : rest = [] ∨ Refused rest) (c : Jtag Mpsse) :
    ∃ ok, runOps usb rest c = .ok ok c := by
  rcases h with rfl | ⟨n, rest, rfl, hn⟩
  · exact ⟨true, rfl⟩
  · have hrun : (Op.ensure_space n).run usb c = .ok false c := ensure_space_refused hn c
    exact ⟨false, bind_of_ok hrun⟩

theorem Reached.settled {a : Audit} (hstart : c.dev.mpsse_buffer = []) (h : Reached usb c a) : a.Settled := by
  induction h with
  | start =>
    refine ⟨⟨?_, ?_, by simp⟩, ?_⟩
    · simp [hstart]
    · simp [hstart]
    · exact hstart ▸ commands_nil
  | @call a b call rest ok d _ hvalid hpass hend hrun ih =>
    obtain ⟨hkept, hmeets⟩ := ops_safe hvalid a.jtag a ih b rest hpass
    have hcommands : Commands b.jtag.dev.mpsse_buffer := by
      rcases hend with rfl | ⟨n, rest, rfl, -⟩
      · exact hmeets.commands
      · exact hmeets
    obtain ⟨r, k, hops, hbuffer, -⟩ := (call_accomplishes hvalid a.jtag).ensures ok d hrun
    obtain ⟨r', hrest⟩ := @rest_changes_nothing usb _ hend b.jtag
    rw [passes_run hpass, hrest] at hops
    cases hops
    obtain ⟨hfits, hconserved, hwhole⟩ := hkept
    rw [hbuffer] at hfits hconserved hcommands
    exact ⟨⟨hfits, hconserved, hwhole⟩, hcommands⟩

theorem ensure_space_mem {us : List (List Byte)} {n : Nat} (h : Op.ensure_space n ∈ us.flatMap commandOps) :
    ∃ u ∈ us, n = u.length := by
  obtain ⟨u, hu, hn⟩ := List.mem_flatMap.mp h
  refine ⟨u, hu, ?_⟩
  rcases List.mem_cons.mp hn with heq | hmem
  · exact Op.ensure_space.inj heq
  · obtain ⟨p, -, hp⟩ := List.mem_map.mp hmem
    cases hp

/-- A command of a scan that has no room is the one with its bytes. -/
theorem scan_unit_refused {data u : List Byte} {n : Nat} {flip read : Bool} (hn : flip = true → 1 ≤ n)
    (hn' : n < 2 ^ 64) (hu : u ∈ (Call.scan_chain_send data n flip read).units) (hbig : BUFFER_LENGTH ≤ u.length) :
    ¬ Fits n flip := by
  have hsize : BUFFER_LENGTH = 8192 := rfl
  unfold Fits
  rw [bulk_bits_eq hn hn']
  obtain ⟨w, hw, rfl⟩ := List.mem_map.mp hu
  simp only [Call.codes, scanCodes] at hw
  generalize (if flip then n - 1 else n) = bulk at hw ⊢
  rcases List.mem_append.mp hw with hw | hw
  · rcases List.mem_append.mp hw with hw | hw
    · unfold bytesCodes at hw
      split at hw
      · cases hw
      · obtain rfl := List.mem_singleton.mp hw
        simp only [List.length_cons, List.length_take] at hbig
        omega
    · unfold restCodes at hw
      split at hw
      · cases hw
      · obtain rfl := List.mem_singleton.mp hw
        simp only [List.length_cons, List.length_nil] at hbig
        omega
  · split at hw
    · obtain rfl := List.mem_singleton.mp hw
      simp only [lastCode, List.length_cons, List.length_nil] at hbig
      omega
    · cases hw

/-- A call with a command that the buffer could never hold does nothing at all. -/
theorem call_refused {call : DriverCall} {n : Nat} (hvalid : call.Valid) (hmem : Op.ensure_space n ∈ call.ops c)
    (hn : BUFFER_LENGTH ≤ n) : call.run usb c = .ok false c := by
  have hsize : BUFFER_LENGTH = 8192 := rfl
  cases call with
  | recv fuel out m flip =>
    simp only [DriverCall.ops] at hmem
    split at hmem
    · cases hmem
    · rcases List.mem_append.mp hmem with hmem | hmem
      · obtain ⟨u, hu, rfl⟩ := @ensure_space_mem [[SEND_IMMEDIATE]] _ (by rwa [List.flatMap_singleton])
        obtain rfl := List.mem_singleton.mp hu
        simp only [List.length_singleton] at hn
        omega
      · simp at hmem
  | call x =>
    cases x with
    | tms_seq data m =>
      obtain ⟨u, hu, rfl⟩ := ensure_space_mem hmem
      obtain ⟨w, hw, rfl⟩ := List.mem_map.mp hu
      obtain ⟨i, -, rfl⟩ := List.mem_map.mp hw
      simp only [tmsCode, List.length_cons, List.length_nil] at hn
      omega
    | scan_chain_send data m flip read =>
      simp only [DriverCall.ops] at hmem
      split at hmem
      · rename_i hnone
        obtain ⟨rfl, rfl⟩ := hnone
        exact scan_chain_send_refused data read (by decide) c
      · rename_i hbits
        obtain ⟨u, hu, rfl⟩ := ensure_space_mem hmem
        have hm : flip = true → 1 ≤ m := fun hflip => Nat.pos_of_ne_zero fun hzero => hbits ⟨hflip, hzero⟩
        exact scan_chain_send_refused data read (scan_unit_refused hm hvalid.1 hu hn) c
    | clock_tck times => simp [DriverCall.ops] at hmem
    | set_tck_freq freq =>
      simp only [DriverCall.ops] at hmem
      split at hmem <;> simp at hmem

/-- Where each write succeeds, the calls come to their end. -/
theorem ops_complete {a : Audit} {ops : List Op} (h : usb.Delivers) (hsafe : Safe usb ops) (ha : a.Settled) :
    ∃ b rest, Passes (Op.step usb) a ops b rest ∧ (rest = [] ∨ Refused rest) := by
  obtain ⟨b, rest, hpass, hend⟩ := passes_until_stuck (Op.step usb) ops a
  refine ⟨b, rest, hpass, ?_⟩
  rcases hend with rfl | ⟨op, rest, rfl, hstuck⟩
  · exact Or.inl rfl
  refine Or.inr ?_
  have hready := (hsafe a ha b _ hpass).2
  have hstep : ∀ d, op.run usb b.jtag ≠ .ok true d := by
    intro d hrun
    simp [Op.step, hrun] at hstuck
  cases op with
  | ensure_space n =>
    by_contra hfits
    have hn : n < BUFFER_LENGTH := by
      by_contra hbig
      exact hfits ⟨n, rest, rfl, Nat.le_of_not_lt hbig⟩
    obtain ⟨r, d, hrun, rfl⟩ := ensure_space_succeeds h b.jtag n hn
    exact hstep d hrun
  | append l =>
    have hrun : (Op.append l).run usb b.jtag = .ok true (appended b.jtag l) := bind_of_ok (append_ok hready)
    exact absurd hrun (hstep _)
  | flush =>
    obtain ⟨r, d, hrun, rfl⟩ := flush_succeeds h b.jtag
    exact absurd hrun (hstep d)
  | write l =>
    obtain ⟨r, d, hrun, rfl⟩ := port_write_succeeds h l b.jtag
    exact absurd hrun (hstep d)

/-- What is known of one more call in a run. -/
structure Accounted (usb : Usb) (a : Audit) (call : DriverCall) : Prop where
  /-- Between any two operations no byte is lost, and each append lands inside the buffer. -/
  moments : ∀ b rest, Passes (Op.step usb) a (call.ops a.jtag) b rest → b.Kept ∧
    ∀ l ops, rest = .append l :: ops → b.jtag.dev.mpsse_buffer.length + l.length ≤ BUFFER_LENGTH
  accomplishes : Accomplishes usb call a.jtag
  completes : usb.Delivers → ∃ b rest, Passes (Op.step usb) a (call.ops a.jtag) b rest ∧ (rest = [] ∨ Refused rest)
  refused : ∀ n, Op.ensure_space n ∈ call.ops a.jtag → BUFFER_LENGTH ≤ n → call.run usb a.jtag = .ok false a.jtag

/-- In every run of driver calls, whatever their sizes, the buffer neither overflows nor loses a byte. -/
theorem buffer_accounted {a : Audit} {call : DriverCall} (hstart : c.dev.mpsse_buffer = []) (h : Reached usb c a)
    (hvalid : call.Valid) : Accounted usb a call := by
  have ha := h.settled hstart
  have hsafe := @ops_safe usb _ hvalid a.jtag
  refine ⟨?_, call_accomplishes hvalid a.jtag, fun hd => ops_complete hd hsafe ha, fun n hmem hn => call_refused hvalid hmem hn⟩
  intro b rest hpass
  obtain ⟨hkept, hmeets⟩ := hsafe a ha b rest hpass
  refine ⟨hkept, ?_⟩
  rintro l ops rfl
  exact hmeets

/-- The account of a call whose operations are all done. -/
def Audit.call (usb : Usb) (a : Audit) (call : DriverCall) : Option Audit := do
  let b ← (call.ops a.jtag).foldlM (fun b op => op.step usb b) a
  match call.run usb a.jtag with
  | .ok _ d => some { b with jtag := d }
  | .error _ _ => none

theorem Reached.next {a b : Audit} {call : DriverCall} (h : Reached usb c a) (hvalid : call.Valid)
    (hcall : a.call usb call = some b) : Reached usb c b := by
  obtain ⟨e, hops, hrun⟩ := Option.bind_eq_some_iff.mp hcall
  split at hrun
  · rename_i ok d hd
    cases hrun
    exact .call h hvalid (passes_of_foldlM hops) (.inl rfl) hd
  · cases hrun

theorem Reached.calls {a b : Audit} {calls : List DriverCall} (h : Reached usb c a) (hvalid : ∀ x ∈ calls, x.Valid)
    (hcalls : calls.foldlM (Audit.call usb) a = some b) : Reached usb c b := by
  induction calls generalizing a with
  | nil =>
    cases hcalls
    exact h
  | cons x calls ih =>
    obtain ⟨e, hx, hrest⟩ := Option.bind_eq_some_iff.mp hcalls
    exact ih (h.next (hvalid x List.mem_cons_self) hx) (fun y hy => hvalid y (List.mem_cons_of_mem x hy)) hrest

/-- Two scans are sent, and the answer of one of them is asked for. -/
def earlierCalls : List DriverCall :=
  [.call (.tms_seq [0x01] 3), .call (.scan_chain_send [0xA5] 8 false true),
    .call (.scan_chain_send [0xA5, 0x01] 9 true true), .recv 100 [0x00] 8 false]

theorem buffer_accounted_calls : ∃ a, earlierCalls.foldlM (Audit.call (mpsseUsb blinkBoard idleEngine))
    ⟨[], [], idleMpsse⟩ = some a ∧ a.flushed.flatten ≠ [] ∧
    Accounted (mpsseUsb blinkBoard idleEngine) a (.call (.scan_chain_send [0xA5, 0x01] 9 true true)) := by
  have hflushed : ((earlierCalls.foldlM (Audit.call (mpsseUsb blinkBoard idleEngine)) ⟨[], [], idleMpsse⟩).map
      fun a => a.flushed.flatten.isEmpty) = some false := by decide +kernel
  obtain ⟨a, hcalls, hempty⟩ := Option.map_eq_some_iff.mp hflushed
  have hreached : Reached (mpsseUsb blinkBoard idleEngine) idleMpsse a :=
    Reached.start.calls (by simp [earlierCalls, DriverCall.Valid]) hcalls
  refine ⟨a, hcalls, ?_, buffer_accounted rfl hreached ⟨by decide, by decide⟩⟩
  rintro hnil
  rw [hnil] at hempty
  cases hempty

end JtagRemote.Mpsse
