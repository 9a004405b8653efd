import JtagRemote.Code.Xvc
import JtagRemote.Lib.Framer
import JtagRemote.Adapter
import JtagRemote.Sock

/-!
# The commands of XVC

What a client asks for, how it is written to the socket, and how the server tells
the commands of a window apart.
-/

namespace JtagRemote.Xvc

/-- A shift command that fits the window. -/
structure Shift where
  bits : Nat
  tms : List Byte
  tdi : List Byte
  fits : bits ≤ MAX_BITS
  tms_length : tms.length = (bits + 7) / 8
  tdi_length : tdi.length = (bits + 7) / 8
  deriving DecidableEq

inductive Command where
  | getinfo
  /-- The period is in ns. -/
  | settck (period : BitVec 32)
  | shift (s : Shift)
  deriving DecidableEq

def Command.encode : Command → List Byte
  | .getinfo => GETINFO
  | .settck period => SETTCK ++ le_bytes period
  | .shift s => SHIFT ++ (le_bytes (BitVec.ofNat 32 s.bits) ++ (s.tms ++ s.tdi))

def encodeAll (cmds : List Command) : List Byte := cmds.flatMap Command.encode

/-- The shifts among the commands. -/
def shifts : List Command → List Shift
  | [] => []
  | .shift s :: cmds => s :: shifts cmds
  | .getinfo :: cmds => shifts cmds
  | .settck _ :: cmds => shifts cmds

/-- What is written while the window is parsed: all replies but those of the shifts. -/
def early : List Command → List Byte
  | [] => []
  | .getinfo :: cmds => INFO ++ early cmds
  | .settck period :: cmds => le_bytes period ++ early cmds
  | .shift _ :: cmds => early cmds

/-! ## Lengths -/

theorem shift_bytes_eq {bits : Nat} (h : bits ≤ MAX_BITS) : shift_bytes bits = (bits + 7) / 8 := by
  unfold MAX_BITS at h
  unfold shift_bytes
  omega

theorem shift_total_len_eq {bits : Nat} (h : bits ≤ MAX_BITS) :
    shift_total_len bits = SHIFT.length + 4 + 2 * ((bits + 7) / 8) := by
  rw [shift_total_len, shift_bytes_eq h]
  have hlen : SHIFT.length = 6 := rfl
  unfold MAX_BITS at h
  omega

theorem Shift.le32_bits (s : Shift) (x : List Byte) :
    le32 (le_bytes (BitVec.ofNat 32 s.bits) ++ x) = s.bits := by
  have h := s.fits
  unfold MAX_BITS at h
  rw [le32_le_bytes, BitVec.toNat_ofNat]
  omega

theorem Shift.encode_length (s : Shift) :
    (Command.shift s).encode.length = SHIFT.length + 4 + 2 * ((s.bits + 7) / 8) := by
  simp only [Command.encode, List.length_append, le_bytes_length, s.tms_length, s.tdi_length]
  omega

/-! ## The front of a window -/

/-- The length of the command at the front, or `none` while none is complete. -/
def nextLen (w : List Byte) : Option Nat :=
  if GETINFO <+: w then some GETINFO.length
  else if SETTCK <+: w ∧ SETTCK.length + 4 ≤ w.length then some (SETTCK.length + 4)
  else if SHIFT <+: w ∧ SHIFT.length + 4 ≤ w.length ∧
      shift_total_len (le32 (w.drop SHIFT.length)) ≤ w.length then
    some (shift_total_len (le32 (w.drop SHIFT.length)))
  else none

theorem window_starts_eq {s : Sock} (h : s.Ok) (text : List Byte) (arg : Nat) :
    window_starts s text arg = decide (text <+: s.window ∧ text.length + arg ≤ s.window.length) := by
  have hlen := h.window_length
  have horder := h.order
  rw [window_starts, Bool.eq_iff_iff]
  simp only [Bool.and_eq_true, decide_eq_true_eq, beq_iff_eq]
  constructor
  · rintro ⟨hfits, heq⟩
    have hwin : text.length + arg ≤ s.window.length := by omega
    refine ⟨?_, hwin⟩
    have : (s.buffer.drop (s.buffer_begin + 0)).take text.length = (s.window.drop 0).take text.length :=
      Sock.drop_take_eq h (by omega)
    rw [Nat.add_zero, heq, List.drop_zero] at this
    rw [this]
    exact List.take_prefix _ _
  · rintro ⟨hpre, hwin⟩
    refine ⟨by omega, ?_⟩
    have : (s.buffer.drop (s.buffer_begin + 0)).take text.length = (s.window.drop 0).take text.length :=
      Sock.drop_take_eq h (by omega)
    rw [Nat.add_zero, List.drop_zero] at this
    rw [this]
    exact (List.prefix_iff_eq_take.mp hpre).symm

theorem starts_not_getinfo {w : List Byte} (h : SETTCK <+: w ∨ SHIFT <+: w) : ¬ GETINFO <+: w := by
  rintro ⟨t, rfl⟩
  rcases h with ⟨t', h⟩ | ⟨t', h⟩ <;> simp [SETTCK, SHIFT, GETINFO, ascii] at h

theorem starts_not_settck {w : List Byte} (h : SHIFT <+: w) : ¬ SETTCK <+: w := by
  rintro ⟨t, rfl⟩
  obtain ⟨t', h⟩ := h
  simp [SETTCK, SHIFT, ascii] at h

theorem Shift.drop_encode (s : Shift) (x : List Byte) : ((Command.shift s).encode ++ x).drop SHIFT.length =
    le_bytes (BitVec.ofNat 32 s.bits) ++ (s.tms ++ s.tdi ++ x) := by
  rw [Command.encode, List.append_assoc, List.drop_left, List.append_assoc]

theorem nextLen_encode (c : Command) (x : List Byte) :
    nextLen (c.encode ++ x) = some c.encode.length := by
  unfold nextLen
  cases c with
  | getinfo =>
    have hpre : GETINFO <+: Command.getinfo.encode ++ x := List.prefix_append _ _
    rw [if_pos hpre]
    rfl
  | settck period =>
    have hpre : SETTCK <+: (Command.settck period).encode ++ x :=
      (List.prefix_append SETTCK _).trans (List.prefix_append _ _)
    have hlen : SETTCK.length + 4 ≤ ((Command.settck period).encode ++ x).length := by
      simp only [Command.encode, List.length_append, le_bytes_length]
      omega
    rw [if_neg (starts_not_getinfo (Or.inl hpre)), if_pos ⟨hpre, hlen⟩]
    rfl
  | shift s =>
    have hpre : SHIFT <+: (Command.shift s).encode ++ x :=
      (List.prefix_append SHIFT _).trans (List.prefix_append _ _)
    have hlen := s.encode_length
    have htotal := shift_total_len_eq s.fits
    rw [if_neg (starts_not_getinfo (Or.inr hpre)), if_neg (fun h => starts_not_settck hpre h.1), s.drop_encode,
      s.le32_bits, htotal, if_pos ?_, hlen]
    rw [List.length_append, hlen]
    exact ⟨hpre, by omega, by omega⟩

theorem nextLen_pos {w : List Byte} {n : Nat} (h : nextLen w = some n) : 1 ≤ n := by
  unfold nextLen at h
  split at h
  · cases h
    decide
  · split at h
    · cases h
      decide
    · split at h
      · rename_i hc
        cases h
        unfold shift_total_len shift_bytes
        have hlen : SHIFT.length = 6 := rfl
        omega
      · cases h

theorem nextLen_le {w : List Byte} {n : Nat} (h : nextLen w = some n) : n ≤ w.length := by
  unfold nextLen at h
  split at h
  · rename_i hpre
    cases h
    exact hpre.length_le
  · split at h
    · rename_i hc
      cases h
      exact hc.2
    · split at h
      · rename_i hc
        cases h
        exact hc.2.2
      · cases h

theorem nextLen_append {w : List Byte} {n : Nat} (x : List Byte) (h : nextLen w = some n) :
    nextLen (w ++ x) = some n := by
  unfold nextLen at h ⊢
  split at h
  · rename_i hpre
    rwa [if_pos (hpre.trans (List.prefix_append w x))]
  · split at h
    · rename_i hc
      have hpre := hc.1.trans (List.prefix_append w x)
      have hle := Nat.le_trans hc.2 (List.prefix_append w x).length_le
      rwa [if_neg (starts_not_getinfo (Or.inl hpre)), if_pos ⟨hpre, hle⟩]
    · split at h
      · rename_i hc
        have hpre := hc.1.trans (List.prefix_append w x)
        have harg : le32 ((w ++ x).drop SHIFT.length) = le32 (w.drop SHIFT.length) := by
          rw [List.drop_append_of_le_length (by omega), le32, le32, List.take_append_of_le_length]
          rw [List.length_drop]
          omega
        have hle := (List.prefix_append w x).length_le
        rwa [if_neg (starts_not_getinfo (Or.inr hpre)), if_neg (fun h => starts_not_settck hpre h.1), harg,
          if_pos ⟨hpre, Nat.le_trans hc.2.1 hle, Nat.le_trans hc.2.2 hle⟩]
      · cases h

/-- The server's rule for the commands of a stream. -/
def framer : Framer Byte where
  next := nextLen
  pos := nextLen_pos
  le := nextLen_le
  stable := nextLen_append

theorem framer_encode (c : Command) : framer.next c.encode = some c.encode.length := by
  have := nextLen_encode c []
  rwa [List.append_nil] at this

end JtagRemote.Xvc
