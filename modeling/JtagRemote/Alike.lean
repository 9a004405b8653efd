import JtagRemote.Arrays
import JtagRemote.Tap
import JtagRemote.Lib.Twin

/-!
# Adapters that are alike

Two adapters that the code cannot tell apart: the calls give the same results and leave the
adapters alike. The JTAG operations keep them so.
-/

namespace JtagRemote

open JtagState

variable {δ : Type}

/-- Adapters in `J` are alike, adapters in `J₀` are when the first call brings the TAP to TestLogicReset. What
was seen of them at any time is the same by `E`. -/
structure Alike (d : driver δ) (E J₀ J : Jtag δ → Jtag δ → Prop) : Prop where
  weaken {c c' : Jtag δ} : J c c' → J₀ c c'
  seen {c c' : Jtag δ} : J₀ c c' → E c c'
  state {c c' : Jtag δ} : J₀ c c' → c'.state = c.state
  globals₀ {c c' : Jtag δ} (st : JtagState) (n n' : Nat) : J₀ c c' →
    J₀ { c with state := st, bits_send := n } { c' with state := st, bits_send := n' }
  globals {c c' : Jtag δ} (st : JtagState) (n n' : Nat) : J c c' →
    J { c with state := st, bits_send := n } { c' with state := st, bits_send := n' }
  first : Twins E J₀ J (d.jtag_tms_seq [0x1F] 5)
  tms_seq (data : List Byte) (n : Nat) : Twins E J J (d.jtag_tms_seq data n)
  send (data : List Byte) (n : Nat) (flip : Bool) : Twins E J J (d.jtag_scan_chain_send data n flip false)
  scan (data recv : List Byte) (n : Nat) (flip read : Bool) : Twins E J J (jtag_scan_chain d data recv n flip read)

/-- The program does not tell such adapters apart. -/
def Mirrored (E J : Jtag δ → Jtag δ → Prop) {α : Type} (p : EStateM Fault (Jtag δ) α) : Prop := Twins E J J p

section

variable {d : driver δ} {E J₀ J : Jtag δ → Jtag δ → Prop} (A : Alike d E J₀ J)

theorem idcode_at_twins (hE : ∀ c c', J c c' → E c c') (b : List Byte) (i : Nat) :
    Mirrored E J (idcode_at b i) :=
  (index_twins hE b _).bind fun _ => (index_twins hE b _).bind fun _ =>
    (index_twins hE b _).bind fun _ => (index_twins hE b _).bind fun _ => twins_pure _

theorem count_bits_twins {R : Jtag δ → Jtag δ → Prop} (hstate : ∀ c c', R c c' → c'.state = c.state)
    (hR : ∀ c c' st n n', R c c' → R { c with state := st, bits_send := n } { c' with state := st, bits_send := n' })
    (n : Nat) : Twins E R R (count_bits n : EStateM Fault (Jtag δ) Unit) := by
  refine twins_modify fun c c' h => ?_
  obtain ⟨st', sent', dev'⟩ := c'
  obtain rfl : st' = c.state := hstate _ _ h
  exact hR _ _ c.state _ _ h

include A

theorem Alike.both (c c' : Jtag δ) (h : J c c') : E c c' := A.seen (A.weaken h)

/-- A sequence of TMS bits, when the driver's call brings `R` to `J`. -/
theorem jtag_tms_seq_twins_of {R : Jtag δ → Jtag δ → Prop} (hweak : ∀ c c', R c c' → J₀ c c')
    (hR : ∀ c c' st n n', R c c' → R { c with state := st, bits_send := n } { c' with state := st, bits_send := n' })
    {data : List Byte} {n : Nat} (hcall : Twins E R J (d.jtag_tms_seq data n)) :
    Twins E R J (jtag_tms_seq d data n) := by
  have hE : ∀ c c', R c c' → E c c' := fun c c' h => A.seen (hweak c c' h)
  refine (count_bits_twins (fun c c' h => A.state (hweak c c' h)) hR n).bind fun _ => Twins.get_bind fun c c' h => ?_
  rw [A.state (hweak _ _ h)]
  refine Twins.bind (twins_forUpto fun i st => (bit_of_twins hE _ _).bind fun bit => twins_pure _) (fun st => ?_) c c' h
  exact Twins.bind (twins_modify fun c c' h => hR c c' st c.bits_send c'.bits_send h) fun _ => hcall

theorem jtag_tms_seq_twins (data : List Byte) (n : Nat) : Mirrored E J (jtag_tms_seq d data n) :=
  jtag_tms_seq_twins_of A (fun _ _ h => A.weaken h) (fun _ _ st n n' h => A.globals st n n' h) (A.tms_seq data n)

theorem first_goto_tlr_twins : Twins E J₀ J (jtag_goto_tlr d) :=
  jtag_tms_seq_twins_of A (fun _ _ h => h) (fun _ _ st n n' h => A.globals₀ st n n' h) A.first

theorem jtag_goto_tlr_twins : Mirrored E J (jtag_goto_tlr d) := jtag_tms_seq_twins A _ _

theorem jtag_scan_chain_send_twins (data : List Byte) (n : Nat) (flip : Bool) :
    Mirrored E J (jtag_scan_chain_send d data n flip false) :=
  (count_bits_twins (fun _ _ h => A.state (A.weaken h)) (fun _ _ st n n' h => A.globals st n n' h) n).bind fun _ =>
    A.send _ _ _

theorem jtag_tms_seq_to_twins (dst : JtagState) : Mirrored E J (jtag_tms_seq_to d dst) := by
  refine Twins.get_bind fun c c' h => ?_
  rw [A.state (A.weaken h)]
  have hway : Mirrored E J (jtag_get_tms_seq c.state dst) := by
    unfold jtag_get_tms_seq
    split
    · exact twins_pure _
    · split
      all_goals first
        | exact twins_pure _
        | exact twins_throw A.both _
  refine Twins.bind hway (fun way => ?_) c c' h
  exact twins_ite (fun _ => jtag_tms_seq_twins A _ _) fun _ => twins_pure _

/-- It begins with the way to TestLogicReset. -/
theorem jtag_probe_devices_twins (junk : Nat → Byte) : Twins E J₀ J (jtag_probe_devices d junk) := by
  unfold jtag_probe_devices
  refine (first_goto_tlr_twins A).bind fun _ => (jtag_tms_seq_to_twins A _).bind fun _ => ?_
  refine (jtag_scan_chain_send_twins A _ _ _).bind fun _ => (jtag_tms_seq_to_twins A _).bind fun _ => ?_
  refine (jtag_scan_chain_send_twins A _ _ _).bind fun _ => (A.scan _ _ _ _ _).bind fun r => ?_
  refine twins_ite (fun _ => twins_pure _) fun _ => ?_
  refine (jtag_goto_tlr_twins A).bind fun _ => (jtag_tms_seq_twins A _ _).bind fun _ => ?_
  refine (A.scan _ _ _ _ _).bind fun r => ?_
  refine (twins_forUpto fun i res => (idcode_at_twins A.both _ _).bind fun _ => twins_pure _).bind fun res => ?_
  exact (jtag_goto_tlr_twins A).bind fun _ => twins_pure _

end

end JtagRemote
