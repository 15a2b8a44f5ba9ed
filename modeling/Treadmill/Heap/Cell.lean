import Treadmill.Ref

/-!
# Cells

A cell holds two references and the two links of the ring it stands on. The mark shares a word with
the back link: setting one leaves the other alone.
-/

namespace Treadmill

/-- How many values the link part of a back word has; the mark stands above it. -/
abbrev linkSpan : UInt64 := 0x4000000000000000

/-- A pair of references with its links. The two top bits of `back` are the mark and the others
the index of the cell before this one. -/
structure Cell (L : Layout) where
  first : Ref L
  rest : Ref L
  back : UInt64
  forth : UInt64

namespace Cell
variable {L : Layout}

/-- A cell of empty slots that is linked to itself, so on no ring. -/
def unlinked (i : Nat) : Cell L :=
  ⟨.nil, .nil, UInt64.ofNat i, UInt64.ofNat i⟩

instance : Inhabited (Cell L) := ⟨unlinked 0⟩

def mark (c : Cell L) : Mark := Mark.ofBits (c.back / linkSpan)

def prev (c : Cell L) : Nat := (c.back % linkSpan).toNat

def next (c : Cell L) : Nat := c.forth.toNat

def setMark (c : Cell L) (m : Mark) : Cell L :=
  { c with back := Layout.stack linkSpan m.bits (c.back % linkSpan) }

def setPrev (c : Cell L) (i : Nat) : Cell L :=
  { c with back := Layout.stack linkSpan (c.back / linkSpan) (UInt64.ofNat i % linkSpan) }

def setNext (c : Cell L) (i : Nat) : Cell L :=
  { c with forth := UInt64.ofNat i }

theorem toNat_linkSpan : linkSpan.toNat = 2 ^ 62 := rfl

theorem span_div {m r : UInt64} (hm : m.toNat < 4) (hr : r.toNat < 2 ^ 62) :
    Layout.stack linkSpan m r / linkSpan = m :=
  Layout.stack_div (by rw [toNat_linkSpan]; omega) hr

theorem span_mod {m r : UInt64} (hm : m.toNat < 4) (hr : r.toNat < 2 ^ 62) :
    Layout.stack linkSpan m r % linkSpan = r :=
  Layout.stack_mod (by rw [toNat_linkSpan]; omega) hr

theorem mod_span_lt (w : UInt64) : (w % linkSpan).toNat < 2 ^ 62 := by
  rw [UInt64.toNat_mod, toNat_linkSpan]
  omega

theorem div_span_lt (w : UInt64) : (w / linkSpan).toNat < 4 := by
  have := w.toNat_lt
  rw [UInt64.toNat_div, toNat_linkSpan]
  omega

theorem bits_lt (m : Mark) : m.bits.toNat < 4 := by
  cases m <;> decide

@[simp] theorem mark_setMark (m : Mark) (c : Cell L) : (c.setMark m).mark = m := by
  simp only [mark, setMark, span_div (bits_lt m) (mod_span_lt _), Mark.ofBits_bits]

@[simp] theorem prev_setMark (m : Mark) (c : Cell L) : (c.setMark m).prev = c.prev := by
  simp only [prev, setMark, span_mod (bits_lt m) (mod_span_lt _)]

@[simp] theorem next_setMark (m : Mark) (c : Cell L) : (c.setMark m).next = c.next := by
  simp only [next, setMark]

@[simp] theorem mark_setPrev (i : Nat) (c : Cell L) : (c.setPrev i).mark = c.mark := by
  simp only [mark, setPrev, span_div (div_span_lt _) (mod_span_lt _)]

theorem prev_setPrev {i : Nat} (h : i < 2 ^ 62) (c : Cell L) : (c.setPrev i).prev = i := by
  simp only [prev, setPrev, span_mod (div_span_lt _) (mod_span_lt _)]
  rw [UInt64.toNat_mod, UInt64.toNat_ofNat', toNat_linkSpan]
  omega

@[simp] theorem next_setPrev (i : Nat) (c : Cell L) : (c.setPrev i).next = c.next := by
  simp only [next, setPrev]

@[simp] theorem mark_setNext (i : Nat) (c : Cell L) : (c.setNext i).mark = c.mark := by
  simp only [mark, setNext]

@[simp] theorem prev_setNext (i : Nat) (c : Cell L) : (c.setNext i).prev = c.prev := by
  simp only [prev, setNext]

theorem next_setNext {i : Nat} (h : i < 2 ^ 62) (c : Cell L) : (c.setNext i).next = i := by
  simp only [next, setNext, UInt64.toNat_ofNat']
  omega

end Cell

end Treadmill
