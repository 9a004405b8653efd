import JtagRemote.Arrays
import JtagRemote.Tap

/-!
# Accesses in range

What a driver promises when the arrays that it is given are large enough for the
bits: no access goes out of range, whatever the libftdi calls do.
-/

namespace JtagRemote

/-- Any fault but an access out of range. -/
def InRange (e : Fault) : Prop := e ≠ .out_of_bounds

/-- Nor a loop that runs on. -/
def Finishes (e : Fault) : Prop := e ≠ .out_of_bounds ∧ e ≠ .out_of_fuel

instance : DecidablePred InRange := fun _ => inferInstanceAs (Decidable (_ ≠ _))

instance : DecidablePred Finishes := fun _ => inferInstanceAs (Decidable (_ ∧ _))

theorem Finishes.in_range {e : Fault} (h : Finishes e) : InRange e := h.1

/-! ## Arrays -/

section

variable {σ : Type} {F : Fault → Prop}

theorem Ends.of_ok {α : Type} {p : EStateM Fault σ α} {s t : σ} {a : α} {Q : α → σ → Prop} (h : p s = .ok a t)
    (hQ : Q a t) : Ends p s F Q := Returns.ends ⟨a, t, h, hQ⟩

theorem index_ends {l : List Byte} {i : Nat} (h : i < l.length) (s : σ) :
    Ends (index l i : EStateM Fault σ Byte) s F fun b t => t = s ∧ b = l.getD i 0 := .of_ok (index_ok h s) ⟨rfl, rfl⟩

theorem bit_of_ends {l : List Byte} {i : Nat} (h : i < 8 * l.length) (s : σ) :
    Ends (bit_of l i : EStateM Fault σ Bool) s F fun b t => t = s ∧ b = bitAt l i :=
  .of_ok (bit_of_ok (by omega) s) ⟨rfl, rfl⟩

theorem or_bit_ends {l : List Byte} {i : Nat} (h : i < 8 * l.length) (b : Bool) (s : σ) :
    Ends (or_bit l i b : EStateM Fault σ (List Byte)) s F fun r t => t = s ∧ r.length = l.length :=
  .of_ok (or_bit_ok (by omega) b s) ⟨rfl, orBit_length l i b⟩

theorem memcpy_ends {dst src : List Byte} {off : Nat} (h : off + src.length ≤ dst.length) (s : σ) :
    Ends (memcpy dst off src : EStateM Fault σ (List Byte)) s F fun r t => t = s ∧ r.length = dst.length :=
  .of_ok (memcpy_ok h s) ⟨rfl, splice_length dst off src h⟩

theorem memset_zero_ends {dst : List Byte} {len : Nat} (h : len ≤ dst.length) (s : σ) :
    Ends (memset_zero dst len : EStateM Fault σ (List Byte)) s F fun r t => t = s ∧ r.length = dst.length :=
  memcpy_ends (by simpa using h) s

theorem first_element_ends {α : Type} {v : List α} (h : 0 < v.length) (s : σ) :
    Ends (first_element v : EStateM Fault σ Unit) s F fun _ t => t = s := .of_ok (first_element_ok h s) rfl

theorem bytes_at_ends {l : List Byte} {off len : Nat} (h : off + len ≤ l.length) (s : σ) :
    Ends (bytes_at l off len : EStateM Fault σ (List Byte)) s F fun r t => t = s ∧ r.length = len := by
  refine .of_ok (bytes_at_ok h s) ⟨rfl, ?_⟩
  rw [List.length_take, List.length_drop]
  omega

end

/-! ## Drivers -/

structure Bounded {δ : Type} (d : driver δ) where
  /-- The arrays of the driver are as long as they are declared. -/
  Ok : δ → Prop
  /-- The driver can hold the answer to a scan of so many bits. -/
  Fits : Nat → Bool → Prop
  tms_seq {c : Jtag δ} {data : List Byte} {n : Nat} : Ok c.dev → n ≤ 8 * data.length →
    Ends (d.jtag_tms_seq data n) c Finishes fun _ c' => Ok c'.dev
  send {c : Jtag δ} {data : List Byte} {n : Nat} {flip read : Bool} : Ok c.dev → (flip = true → 1 ≤ n) →
    n < 2 ^ 64 → n ≤ 8 * data.length → (read = true → Fits n flip) →
    Ends (d.jtag_scan_chain_send data n flip read) c Finishes fun _ c' => Ok c'.dev
  recv {c : Jtag δ} {out : List Byte} {n : Nat} {flip : Bool} : Ok c.dev → (flip = true → 1 ≤ n) →
    n < 2 ^ 64 → n ≤ 8 * out.length → Fits n flip →
    Ends (d.jtag_scan_chain_recv out n flip) c InRange fun r c' => r.2.length = out.length ∧ Ok c'.dev
  clock {c : Jtag δ} {n : Nat} : Ok c.dev → Ends (d.jtag_clock_tck n) c Finishes fun _ c' => Ok c'.dev
  freq {c : Jtag δ} {f : Nat} : Ok c.dev → Ends (d.set_tck_freq f) c Finishes fun _ c' => Ok c'.dev

theorem bulk_bits_le {n : Nat} {flip : Bool} (hn : flip = true → 1 ≤ n) (hn' : n < 2 ^ 64) :
    bulk_bits n flip ≤ n := by
  cases flip with
  | false => exact Nat.le_refl n
  | true =>
    have h := bulk_bits_of_pos true (hn rfl) hn'
    rw [h]
    exact Nat.sub_le n 1

/-! ## The calls of `common.cpp` -/

namespace Bounded

variable {δ : Type} {d : driver δ} (B : Bounded d) {c : Jtag δ}

theorem jtag_tms_seq_ends {data : List Byte} {n : Nat} (h : B.Ok c.dev) (hlen : n ≤ 8 * data.length) :
    Ends (jtag_tms_seq d data n) c Finishes fun _ c' => B.Ok c'.dev := by
  rw [Ends, jtag_tms_seq_eq d data n c hlen]
  exact B.tms_seq h hlen

theorem jtag_scan_chain_send_ends {data : List Byte} {n : Nat} {flip read : Bool} (h : B.Ok c.dev)
    (hn : flip = true → 1 ≤ n) (hn' : n < 2 ^ 64) (hlen : n ≤ 8 * data.length) (hfits : read = true → B.Fits n flip) :
    Ends (jtag_scan_chain_send d data n flip read) c Finishes fun _ c' => B.Ok c'.dev := by
  rw [Ends, jtag_scan_chain_send_eq]
  exact B.send (c := withCount c n) h hn hn' hlen hfits

theorem jtag_scan_chain_ends {data out : List Byte} {n : Nat} {flip read : Bool} (h : B.Ok c.dev)
    (hn : flip = true → 1 ≤ n) (hn' : n < 2 ^ 64) (hlen : n ≤ 8 * data.length) (hout : n ≤ 8 * out.length)
    (hfits : read = true → B.Fits n flip) :
    Ends (jtag_scan_chain d data out n flip read) c InRange fun r c' => r.2.length = out.length ∧ B.Ok c'.dev := by
  refine Ends.bind ((B.jtag_scan_chain_send_ends h hn hn' hlen hfits).weaken fun _ => Finishes.in_range) ?_
  intro ok c' h'
  refine ends_ite (fun _ => ends_ite (fun hread => ?_) fun _ => ends_pure ⟨rfl, h'⟩) fun _ => ends_pure ⟨rfl, h'⟩
  exact B.recv h' hn hn' hout (hfits hread)

theorem jtag_clock_tck_ends {n : Nat} (h : B.Ok c.dev) :
    Ends (jtag_clock_tck d n) c Finishes fun _ c' => B.Ok c'.dev := by
  rw [Ends, jtag_clock_tck_eq]
  exact B.clock (c := withCount c n) h

end Bounded

/-! ## What the calls leave alone -/

section

variable {δ ν : Type} {d : driver δ} {part : δ → ν}

/-- The calls of the driver leave this part of it as it is. -/
structure Spares (d : driver δ) (part : δ → ν) : Prop where
  tms_seq (data : List Byte) (n : Nat) : Keeps (fun c => part c.dev) (d.jtag_tms_seq data n)
  send (data : List Byte) (n : Nat) (flip read : Bool) :
    Keeps (fun c => part c.dev) (d.jtag_scan_chain_send data n flip read)
  recv (out : List Byte) (n : Nat) (flip : Bool) : Keeps (fun c => part c.dev) (d.jtag_scan_chain_recv out n flip)

theorem count_bits_spares (n : Nat) : Keeps (fun c => part c.dev) (count_bits n : EStateM Fault (Jtag δ) Unit) :=
  keeps_modify fun _ => rfl

namespace Spares

variable (h : Spares d part)

include h

theorem jtag_tms_seq (data : List Byte) (n : Nat) : Keeps (fun c => part c.dev) (jtag_tms_seq d data n) :=
  (count_bits_spares n).bind fun _ => Keeps.get_bind fun _ =>
    (keeps_forUpto fun i _ => (bit_of_keeps data i).bind fun _ => keeps_pure _).bind fun st =>
      Keeps.bind (p := modify fun c => { c with state := st }) (keeps_modify fun _ => rfl) fun _ => h.tms_seq data n

theorem jtag_scan_chain_send (data : List Byte) (n : Nat) (flip read : Bool) :
    Keeps (fun c => part c.dev) (jtag_scan_chain_send d data n flip read) :=
  (count_bits_spares n).bind fun _ => h.send data n flip read

theorem jtag_scan_chain (data out : List Byte) (n : Nat) (flip read : Bool) :
    Keeps (fun c => part c.dev) (jtag_scan_chain d data out n flip read) :=
  (h.jtag_scan_chain_send data n flip read).bind fun _ =>
    keeps_ite (keeps_ite (h.recv out n flip) (keeps_pure _)) (keeps_pure _)

theorem jtag_tms_seq_to (dst : JtagState) : Keeps (fun c => part c.dev) (jtag_tms_seq_to d dst) := by
  refine Keeps.get_bind fun c => Keeps.bind (fun s => ?_) fun r => keeps_ite (h.jtag_tms_seq _ _) (keeps_pure _)
  unfold jtag_get_tms_seq
  cases c.state <;> cases dst <;>
    first
    | exact ensures_pure rfl
    | exact ensures_throw

theorem jtag_probe_devices (junk : Nat → Byte) : Keeps (fun c => part c.dev) (jtag_probe_devices d junk) := by
  have hgoto : Keeps (fun c => part c.dev) (jtag_goto_tlr d) := h.jtag_tms_seq _ _
  have hid : ∀ b i, Keeps (fun c : Jtag δ => part c.dev) (idcode_at b i) := fun b i =>
    (index_keeps _ _).bind fun _ => (index_keeps _ _).bind fun _ => (index_keeps _ _).bind fun _ =>
      (index_keeps _ _).bind fun _ => keeps_pure _
  refine hgoto.bind fun _ => (h.jtag_tms_seq_to _).bind fun _ => (h.jtag_scan_chain_send _ _ _ _).bind fun _ => ?_
  refine (h.jtag_tms_seq_to _).bind fun _ => (h.jtag_scan_chain_send _ _ _ _).bind fun _ => ?_
  refine (h.jtag_scan_chain _ _ _ _ _).bind fun r => keeps_ite (keeps_pure _) ?_
  refine hgoto.bind fun _ => (h.jtag_tms_seq _ _).bind fun _ => (h.jtag_scan_chain _ _ _ _ _).bind fun r => ?_
  exact (keeps_forUpto fun i res => (hid _ _).bind fun _ => keeps_pure _).bind fun _ => hgoto.bind fun _ => keeps_pure _

end Spares

end

end JtagRemote
