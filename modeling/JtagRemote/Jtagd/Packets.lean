import JtagRemote.Code.Jtagd
import JtagRemote.Stream

/-!
# Packets

A packet is a header of two bytes, which gives a mux and the length of the body
less one, and the body.
-/

namespace JtagRemote.Jtagd

/-! ## The packet rule -/

def headerOf (w : List Byte) : BitVec 16 := w.getD 0 0 ++ w.getD 1 0

def muxOf (w : List Byte) : Nat := (headerOf w >>> 12).toNat

def lengthOf (w : List Byte) : Nat := (headerOf w &&& 0xfff#16).toNat + 1

def packetLen (w : List Byte) : Option Nat :=
  if 2 ≤ w.length ∧ 2 + lengthOf w ≤ w.length then some (2 + lengthOf w) else none

theorem headerOf_append {w : List Byte} (h : 2 ≤ w.length) (x : List Byte) :
    headerOf (w ++ x) = headerOf w := by
  rw [headerOf, List.getD_append _ _ _ _ (by omega), List.getD_append _ _ _ _ (by omega)]
  rfl

/-- The server's rule for the packets of a stream. -/
def packets : Framer Byte where
  next := packetLen
  pos := by
    intro w n h
    unfold packetLen at h
    split at h
    · cases h
      omega
    · cases h
  le := by
    intro w n h
    unfold packetLen at h
    split at h
    · rename_i hc
      cases h
      exact hc.2
    · cases h
  stable := by
    intro w n x h
    unfold packetLen at h ⊢
    split at h
    · rename_i hc
      have heq : lengthOf (w ++ x) = lengthOf w := by rw [lengthOf, headerOf_append hc.1, lengthOf]
      have hle := (List.prefix_append w x).length_le
      rwa [heq, if_pos ⟨Nat.le_trans hc.1 hle, Nat.le_trans hc.2 hle⟩]
    · cases h

/-- A packet of the right size. -/
structure Frame where
  mux : BitVec 16
  body : List Byte
  deriving DecidableEq

def Frame.bytes (f : Frame) : List Byte :=
  let header := compute_header (BitVec.ofNat 16 f.body.length) f.mux
  [(header >>> 8).setWidth 8, header.setWidth 8] ++ f.body

/-- What a packet says. -/
def unpack (u : List Byte) : Nat × List Byte := (muxOf u, u.drop 2)

theorem header_split (h : BitVec 16) :
    ((h >>> 8).setWidth 8 : Byte) ++ (h.setWidth 8 : Byte) = (h : BitVec 16) := by
  apply BitVec.eq_of_toNat_eq
  have hlt := h.isLt
  rw [BitVec.toNat_append, BitVec.toNat_setWidth, BitVec.toNat_setWidth, BitVec.toNat_ushiftRight,
    Nat.shiftRight_eq_div_pow, ← Nat.shiftLeft_add_eq_or_of_lt (by omega), Nat.shiftLeft_eq]
  omega

theorem header_toNat {len : Nat} {mux : BitVec 16} (hpos : 1 ≤ len) (hle : len ≤ 4096)
    (hmux : mux.toNat < 16) :
    (compute_header (BitVec.ofNat 16 len) mux).toNat = mux.toNat * 4096 + (len - 1) := by
  have hlow : (BitVec.ofNat 16 len - 1).toNat = len - 1 := by
    rw [BitVec.toNat_sub, BitVec.toNat_ofNat, show (1 : BitVec 16).toNat = 1 from rfl]
    omega
  have hhigh : (mux <<< 12).toNat = mux.toNat * 4096 := by
    rw [BitVec.toNat_shiftLeft, Nat.shiftLeft_eq, Nat.mod_eq_of_lt (by omega)]
  have hshift : mux.toNat * 4096 = mux.toNat <<< 12 := (Nat.shiftLeft_eq mux.toNat 12).symm
  rw [compute_header, BitVec.toNat_or, hlow, hhigh, hshift, ← Nat.shiftLeft_add_eq_or_of_lt (by omega)]

theorem Frame.headerOf_bytes (f : Frame) :
    headerOf f.bytes = compute_header (BitVec.ofNat 16 f.body.length) f.mux := header_split _

theorem Frame.muxOf_bytes {f : Frame} (hpos : 1 ≤ f.body.length) (hle : f.body.length ≤ 4096)
    (hmux : f.mux.toNat < 16) : muxOf f.bytes = f.mux.toNat := by
  rw [muxOf, f.headerOf_bytes, BitVec.toNat_ushiftRight, header_toNat hpos hle hmux,
    Nat.shiftRight_eq_div_pow]
  omega

theorem Frame.lengthOf_bytes {f : Frame} (hpos : 1 ≤ f.body.length) (hle : f.body.length ≤ 4096)
    (hmux : f.mux.toNat < 16) : lengthOf f.bytes = f.body.length := by
  rw [lengthOf, f.headerOf_bytes, BitVec.toNat_and, header_toNat hpos hle hmux]
  have hmask : (0xfff#16).toNat = 2 ^ 12 - 1 := rfl
  rw [hmask, Nat.and_two_pow_sub_one_eq_mod, Nat.mul_comm, Nat.mul_add_mod]
  omega

theorem Frame.next_bytes {f : Frame} (hpos : 1 ≤ f.body.length) (hle : f.body.length ≤ 4096)
    (hmux : f.mux.toNat < 16) : packets.next f.bytes = some f.bytes.length := by
  have hlen : f.bytes.length = 2 + f.body.length := by
    simp only [Frame.bytes, List.length_append, List.length_cons, List.length_nil]
  show packetLen f.bytes = some f.bytes.length
  rw [packetLen, f.lengthOf_bytes hpos hle hmux, hlen, if_pos ⟨by omega, by omega⟩]

/-! ## The packet loop -/

section

variable {δ : Type} {s : Jtagd δ} {fuel : Nat}

/-- The loop stops at a window with no complete packet. -/
theorem packet_loop_stop (h : s.sock.Ok) (hnone : packetLen s.sock.window = none) :
    packet_loop (fuel + 1) s = .ok () s := by
  have hlen := h.window_length
  have horder := h.order
  unfold packetLen at hnone
  split at hnone
  · cases hnone
  rename_i hnot
  rw [packet_loop, bind_of_ok (get_apply s)]
  split
  · rename_i htwo
    have h0 : (index s.sock.buffer (s.sock.buffer_begin + 0) : JtagdProg δ Byte) s = _ :=
      h.index_window (by omega) s
    rw [Nat.add_zero] at h0
    rw [bind_of_ok h0, bind_of_ok (h.index_window (by omega) s), if_neg ?_]
    · rfl
    · intro hfits
      refine hnot ⟨by omega, ?_⟩
      have : s.sock.buffer_begin + 2 + lengthOf s.sock.window ≤ s.sock.buffer_end := hfits
      omega
  · rfl

/-- One round: the header is taken off, the packet is handled, its body is taken off. -/
theorem packet_loop_round (h : s.sock.Ok) {n : Nat} (hn : packetLen s.sock.window = some n) :
    n = 2 + lengthOf s.sock.window ∧ n ≤ s.sock.window.length ∧
    packet_loop (fuel + 1) s = (do
      handle_packet (muxOf s.sock.window) (lengthOf s.sock.window)
      jtagd_consume (lengthOf s.sock.window)
      packet_loop fuel) { s with sock := s.sock.consume 2 } := by
  have hlen := h.window_length
  have horder := h.order
  have hle := packets.le hn
  unfold packetLen at hn
  split at hn
  · rename_i hc
    cases hn
    refine ⟨rfl, hle, ?_⟩
    have h0 : (index s.sock.buffer (s.sock.buffer_begin + 0) : JtagdProg δ Byte) s = _ :=
      h.index_window (by omega) s
    rw [Nat.add_zero] at h0
    have hfits : s.sock.buffer_begin + 2 + lengthOf s.sock.window ≤ s.sock.buffer_end := by omega
    rw [packet_loop, bind_of_ok (get_apply s), if_pos (by omega), bind_of_ok h0,
      bind_of_ok (h.index_window (by omega) s)]
    exact (if_pos hfits).symm ▸ rfl
  · cases hn

end

end JtagRemote.Jtagd
