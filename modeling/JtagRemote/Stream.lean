import JtagRemote.Sock
import JtagRemote.Lib.Framer
import Mathlib.Data.List.SplitLengths

/-!
# The bytes of a connection

A connection is a series of reads, and after each of them the server consumes
something. The window should always be what was received and not consumed.
-/

namespace JtagRemote

/-- One read, and what is consumed after it. -/
structure Turn where
  arrives : Nat
  used : Nat
  deriving DecidableEq, Repr

variable {s : Sock} {pending : List Byte}

/-- Whatever the bytes are: after each read, the window is what was pending and what came in. -/
def Faithful : List Turn → List Byte → Sock → Prop
  | [], _, _ => True
  | turn :: turns, pending, s => ∀ chunk, chunk.length = turn.arrives → chunk.length ≤ s.space →
      ∃ t, read_socket (deliver chunk) s = .ok true t ∧ t.Ok ∧ t.window = pending ++ chunk ∧
        (turn.used ≤ t.window.length → Faithful turns ((pending ++ chunk).drop turn.used) (t.consume turn.used))

/-- Each read that brings bytes finds the window empty. -/
def Quiet : List Turn → Sock → Prop
  | [], _ => True
  | turn :: turns, s => ∀ chunk, chunk.length = turn.arrives → chunk.length ≤ s.space →
      (chunk = [] ∨ s.window = []) ∧
      ∀ t, read_socket (deliver chunk) s = .ok true t → turn.used ≤ t.window.length →
        Quiet turns (t.consume turn.used)

/-- A connection that is read as it should be: the units that the server takes are those of the
stream, however it came in. -/
inductive Decodes (F : Framer Byte) : Sock → List Turn → List Byte → List (List Byte) → Sock → Prop
  | nil (s : Sock) : Decodes F s [] [] [] s
  | turn {s t s' : Sock} {chunk bytes rest : List Byte} {us us' : List (List Byte)} {turns : List Turn} :
      chunk.length ≤ s.space → read_socket (deliver chunk) s = .ok true t → F.Splits t.window us rest →
      Decodes F (t.consume us.flatten.length) turns bytes us' s' →
      Decodes F s (⟨chunk.length, us.flatten.length⟩ :: turns) (chunk ++ bytes) (us ++ us') s'

/-! ## One read -/

theorem Sock.Ok.reads (h : s.Ok) {chunk : List Byte} (hfits : chunk.length ≤ s.space) :
    ∃ t, read_socket (deliver chunk) s = .ok true t ∧ t.Ok ∧ ∃ stale, t.window = chunk ++ stale ∧
      stale.length = s.window.length ∧ (chunk = [] → stale = s.window) := by
  have harrived : s.arrived (deliver chunk) = chunk := by
    rw [Sock.arrived, bytes_deliver, List.take_of_length_le hfits]
  obtain ⟨r, t, hrun, hok, -, -, htrue, hfalse⟩ := h.read_socket_ok (deliver chunk)
  cases r with
  | false => exact absurd (hfalse rfl) (deliver_open chunk)
  | true =>
    have hwin := (htrue rfl).2
    rw [Sock.windowAfter, harrived] at hwin
    refine ⟨t, hrun, hok, _, hwin, ?_, ?_⟩
    · obtain ⟨hroom, hsame⟩ := h.make_room_ok
      have hlen := hroom.window_length
      have hsize := hroom.size
      have hbound := hroom.bound
      have horder := hroom.order
      have hspace : s.space = BUFFER_SIZE - (make_room s).buffer_end := rfl
      rw [hsame] at hlen
      rw [List.length_take, List.length_drop]
      omega
    · intro hnone
      have := h.windowAfter_nil (harrived.trans hnone)
      rw [Sock.windowAfter, harrived, hnone] at this
      rw [hnone]
      exact this

/-- The new bytes stand before the old ones, so a read is right only if there are no old ones. -/
theorem Sock.Ok.read_right (h : s.Ok) {chunk : List Byte} (hfits : chunk.length ≤ s.space)
    (hquiet : chunk = [] ∨ s.window = []) :
    ∃ t, read_socket (deliver chunk) s = .ok true t ∧ t.Ok ∧ t.window = s.window ++ chunk := by
  obtain ⟨t, hrun, hok, stale, hwin, hlen, hnone⟩ := h.reads hfits
  refine ⟨t, hrun, hok, ?_⟩
  rcases hquiet with hchunk | hempty
  · rw [hwin, hnone hchunk, hchunk, List.append_nil, List.nil_append]
  · rw [hempty, List.length_nil, List.length_eq_zero_iff] at hlen
    rw [hwin, hlen, hempty, List.append_nil, List.nil_append]

/-- A chunk of this length that does not go on as the window begins. -/
theorem exists_other_chunk (b : Byte) {n : Nat} (hn : 1 ≤ n) :
    ∃ chunk : List Byte, chunk.length = n ∧ ∀ l m : List Byte, chunk ++ l ≠ b :: m := by
  obtain ⟨k, rfl⟩ : ∃ k, n = k + 1 := ⟨n - 1, by omega⟩
  refine ⟨(b + 1) :: List.replicate k 0, by simp, ?_⟩
  intro l m heq
  rw [List.cons_append, List.cons.injEq] at heq
  have hhead := heq.1
  simp at hhead

/-! ## Whole connections -/

theorem Faithful.quiet {turns : List Turn} (h : s.Ok) (hwin : s.window = pending)
    (hfaithful : Faithful turns pending s) : Quiet turns s := by
  induction turns generalizing s pending with
  | nil => trivial
  | cons turn turns ih =>
    intro chunk hlen hfits
    constructor
    · by_contra hnot
      rw [not_or] at hnot
      obtain ⟨b, l, hpending⟩ := List.exists_cons_of_ne_nil hnot.2
      have hpos : 1 ≤ chunk.length := List.length_pos_of_ne_nil hnot.1
      obtain ⟨other, hother, hne⟩ := exists_other_chunk b hpos
      have hroom : other.length ≤ s.space := by rwa [hother]
      obtain ⟨t, hrun, -, hright, -⟩ := hfaithful other (hother.trans hlen) hroom
      obtain ⟨t', hrun', -, stale, hstale, -⟩ := h.reads hroom
      rw [hrun] at hrun'
      cases hrun'
      rw [hstale, ← hwin, hpending] at hright
      exact hne _ _ hright
    · intro t hrun hused
      obtain ⟨t', hrun', hok, hright, hrest⟩ := hfaithful chunk hlen hfits
      rw [hrun] at hrun'
      cases hrun'
      refine ih (hok.consume hused) ?_ (hrest hused)
      rw [Sock.window_consume, hright]

theorem Quiet.faithful {turns : List Turn} (h : s.Ok) (hwin : s.window = pending) (hquiet : Quiet turns s) :
    Faithful turns pending s := by
  induction turns generalizing s pending with
  | nil => trivial
  | cons turn turns ih =>
    intro chunk hlen hfits
    obtain ⟨hnone, hrest⟩ := hquiet chunk hlen hfits
    obtain ⟨t, hrun, hok, hright⟩ := h.read_right hfits hnone
    rw [hwin] at hright
    refine ⟨t, hrun, hok, hright, ?_⟩
    intro hused
    refine ih (hok.consume hused) ?_ (hrest t hrun hused)
    rw [Sock.window_consume, hright]

theorem Framer.Splits.rest {α : Type} {F : Framer α} {w rest : List α} {us : List (List α)}
    (h : F.Splits w us rest) : F.next rest = none := by
  induction h with
  | stop hnone => exact hnone
  | unit _ _ ih => exact ih

/-- With the right windows, the units are those of the stream. -/
theorem Faithful.decodes {F : Framer Byte} {turns : List Turn} {bytes : List Byte} {us : List (List Byte)}
    {s' : Sock} (hfaithful : Faithful turns pending s) (hwin : s.window = pending)
    (hnone : F.next pending = none) (h : Decodes F s turns bytes us s') :
    F.Splits (pending ++ bytes) us s'.window := by
  induction h generalizing pending with
  | nil s =>
    rw [List.append_nil, hwin]
    exact .stop hnone
  | @turn s t s' chunk bytes rest us us' turns hfits hrun hsplits _ ih =>
    obtain ⟨t', hrun', -, hright, hrest⟩ := hfaithful chunk rfl hfits
    rw [hrun] at hrun'
    cases hrun'
    have hflat := hsplits.flatten
    have hused : us.flatten.length ≤ t.window.length := by
      rw [← hflat, List.length_append]
      omega
    have hdrop : (pending ++ chunk).drop us.flatten.length = rest := by
      rw [← hright, ← hflat, List.drop_left]
    have hleft := hrest hused
    rw [hdrop] at hleft
    have htail := ih hleft (by rw [Sock.window_consume, hright, hdrop]) hsplits.rest
    rw [hright] at hsplits
    rw [← List.append_assoc]
    exact hsplits.append htail

/-- From an empty window: for all bytes the windows are right, and so are the units that any server
takes, just if no read has to add to what is pending. -/
theorem window_faithful_iff (h : s.Ok) (hempty : s.window = []) (turns : List Turn) :
    (Faithful turns [] s ∧ ∀ F bytes us s', Decodes F s turns bytes us s' → F.Splits bytes us s'.window) ↔
      Quiet turns s := by
  constructor
  · rintro ⟨hfaithful, -⟩
    exact hfaithful.quiet h hempty
  · intro hquiet
    have hfaithful := hquiet.faithful h hempty
    refine ⟨hfaithful, ?_⟩
    intro F bytes us s' hdecodes
    exact hfaithful.decodes hempty F.next_nil hdecodes

/-! ## A command in two pieces -/

def freshSock : Sock := ⟨4, List.replicate BUFFER_SIZE 0, 0, 0, true, []⟩

theorem freshSock_ok : freshSock.Ok := ⟨List.length_replicate, Nat.le_refl 0, Nat.zero_le _⟩

/-- No client came yet. -/
def bootSock : Sock := { freshSock with client_fd := -1, alive := false }

theorem bootSock_ok : bootSock.Ok := ⟨freshSock_ok.size, Nat.le_refl 0, Nat.zero_le _⟩

theorem window_faithful_iff_once :
    (Faithful [⟨8, 8⟩] [] freshSock ∧
      ∀ F bytes us s', Decodes F freshSock [⟨8, 8⟩] bytes us s' → F.Splits bytes us s'.window) ↔
      Quiet [⟨8, 8⟩] freshSock :=
  window_faithful_iff freshSock_ok rfl [⟨8, 8⟩]

/-- The connection once `get` has come in. -/
def getSock : Sock :=
  { freshSock with buffer := splice freshSock.buffer 0 (ascii ['g', 'e', 't']), buffer_end := 3 }

theorem getSock_read : read_socket (deliver (ascii ['g', 'e', 't'])) freshSock = .ok true getSock := by
  have hfits : 0 + (ascii ['g', 'e', 't']).length ≤ freshSock.buffer.length := by
    rw [freshSock_ok.size]
    decide
  unfold read_socket
  rw [bind_of_ok (modify_apply _ _), bind_of_ok (get_apply _)]
  exact bind_of_ok (memcpy_ok hfits _)

/-- `get` is there when `info:` comes in, and is overwritten. -/
theorem window_overwrites_piece :
    ∃ s₁ s₂, read_socket (deliver (ascii ['g', 'e', 't'])) freshSock = .ok true s₁ ∧
      read_socket (deliver (ascii ['i', 'n', 'f', 'o', ':'])) s₁ = .ok true s₂ ∧
      s₁.window = ascii ['g', 'e', 't'] ∧
      s₂.window ≠ ascii ['g', 'e', 't'] ++ ascii ['i', 'n', 'f', 'o', ':'] := by
  have hok : getSock.Ok := by
    refine ⟨?_, Nat.zero_le _, by decide⟩
    show (splice _ _ _).length = BUFFER_SIZE
    rw [splice_length _ _ _ (by rw [freshSock_ok.size]; decide), freshSock_ok.size]
  have hspace : (ascii ['i', 'n', 'f', 'o', ':']).length ≤ getSock.space := by decide
  obtain ⟨s₂, hrun₂, -, stale, hwin₂, -⟩ := hok.reads hspace
  have hwin : getSock.window = ascii ['g', 'e', 't'] := take_splice_zero freshSock.buffer (ascii ['g', 'e', 't'])
  refine ⟨getSock, s₂, getSock_read, hrun₂, hwin, ?_⟩
  rw [hwin₂]
  intro heq
  simp [ascii] at heq

/-! ## A unit in pieces -/

/-- The reads in which `n` bytes come. -/
structure Cut (n : Nat) where
  parts : List Nat
  pos : ∀ k ∈ parts, 0 < k
  sum : parts.sum = n

def Cut.pieces {n : Nat} (cut : Cut n) (u : List Byte) : List (List Byte) := cut.parts.splitLengths u

theorem Cut.flatten_pieces {n : Nat} (cut : Cut n) {u : List Byte} (hn : u.length = n) : (cut.pieces u).flatten = u :=
  List.flatten_splitLengths _ _ (by rw [cut.sum, hn])

/-- The pieces come, one in each tick, and in the tick of the last one the unit is handled. -/
def InPieces {σ : Type} (tick : List Byte → σ → σ → Prop) (handled : List Byte → σ → Prop) : List (List Byte) → σ → Prop
  | [], _ => False
  | [piece], s => handled piece s
  | piece :: next :: pieces, s => ∃ t, tick piece s t ∧ InPieces tick handled (next :: pieces) t

/-- A read adds what arrives, at the front. -/
theorem Sock.Ok.read_adds {k : Sock} {recv : Recv} (h : s.Ok) (hread : read_socket recv s = .ok true k) :
    k.Ok ∧ s.arrived recv <+: k.window ∧ k.window.length ≤ s.window.length + (s.arrived recv).length := by
  obtain ⟨hk, -, -, htrue, -⟩ := (h.read_socket_ok recv).ensures true k hread
  have hwin := (htrue rfl).2
  refine ⟨hk, ?_, ?_⟩
  · rw [hwin, Sock.windowAfter]
    exact List.prefix_append _ _
  · rw [hwin, Sock.windowAfter, List.length_append, List.length_take]
    omega

/-- If the window is a unit after the last piece came in, the unit begins with that piece. -/
theorem InPieces.last {σ : Type} {tick : List Byte → σ → σ → Prop} {handled : List Byte → σ → Prop} (sock : σ → Sock)
    {u : List Byte} (hhandled : ∀ piece s, handled piece s → ∃ k, read_socket (deliver piece) (sock s) = .ok true k ∧ k.window = u)
    (htick : ∀ piece s t, (sock s).Ok → tick piece s t →
      (sock t).Ok ∧ (sock t).window.length ≤ (sock s).window.length + piece.length)
    {pieces : List (List Byte)} {s : σ} (h : InPieces tick handled pieces s) (hok : (sock s).Ok)
    (hlen : (sock s).window.length + pieces.flatten.length ≤ u.length) :
    ∃ front last, pieces = front ++ [last] ∧ last <+: u := by
  induction pieces generalizing s with
  | nil => exact absurd h id
  | cons piece pieces ih =>
    cases pieces with
    | nil =>
      obtain ⟨k, hread, rfl⟩ := hhandled piece s h
      obtain ⟨-, hpre, hgrows⟩ := hok.read_adds hread
      rw [Sock.arrived, bytes_deliver] at hpre hgrows
      simp only [List.flatten_cons, List.flatten_nil, List.append_nil] at hlen
      rw [List.length_take] at hgrows
      rw [List.take_of_length_le (by omega)] at hpre
      exact ⟨[], piece, rfl, hpre⟩
    | cons next pieces =>
      obtain ⟨t, hstep, hrest⟩ := h
      obtain ⟨htok, hgrows⟩ := htick piece s t hok hstep
      rw [List.flatten_cons, List.length_append] at hlen
      obtain ⟨front, last, heq, hpre⟩ := ih hrest htok (by omega)
      exact ⟨piece :: front, last, by rw [heq, List.cons_append], hpre⟩

/-- A unit whose first byte does not come again can only be handled in one piece. -/
theorem Cut.alone {n : Nat} (cut : Cut n) {a : Byte} {l : List Byte} (hn : (a :: l).length = n) (hnot : a ∉ l)
    {front : List (List Byte)} {last : List Byte} (hpieces : cut.pieces (a :: l) = front ++ [last])
    (hlast : last <+: a :: l) : cut.parts.length = 1 := by
  have hflat : (front ++ [last]).flatten = a :: l := by
    rw [← hpieces, cut.flatten_pieces hn]
  have hparts : (front ++ [last]).map List.length = cut.parts := by
    rw [← hpieces, Cut.pieces, List.map_splitLengths_length _ _ (by rw [cut.sum, hn])]
  have hpos : ∀ piece ∈ front ++ [last], 0 < piece.length := by
    intro piece hmem
    apply cut.pos
    rw [← hparts]
    exact List.mem_map_of_mem hmem
  rw [List.flatten_append, List.flatten_singleton] at hflat
  have hmem : a ∈ last := by
    cases last with
    | nil => exact absurd (hpos [] (by simp)) (by decide)
    | cons b last =>
      obtain ⟨rfl, -⟩ := List.cons_prefix_cons.mp hlast
      exact List.mem_cons_self
  cases front with
  | nil => rw [← hparts]; rfl
  | cons piece front =>
    cases piece with
    | nil => exact absurd (hpos [] (by simp)) (by decide)
    | cons b piece =>
      simp only [List.flatten_cons, List.cons_append, List.cons.injEq] at hflat
      refine absurd ?_ hnot
      rw [← hflat.2]
      exact List.mem_append_right _ hmem

/-- In one piece, the unit comes as it is. -/
theorem Cut.whole {n : Nat} (cut : Cut n) (hone : cut.parts.length = 1) {u : List Byte} (hn : u.length = n) :
    cut.pieces u = [u] := by
  obtain ⟨k, hk⟩ := List.length_eq_one_iff.mp hone
  have hsum := cut.sum
  rw [hk, List.sum_singleton] at hsum
  rw [Cut.pieces, hk, List.splitLengths_cons, List.splitLengths_nil, List.take_of_length_le (by omega)]

end JtagRemote
