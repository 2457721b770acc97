import FinalityGadget.Foundation.Fallible

/-!
# Buffered readers

A reader takes its bytes from a source that hands them out in pieces, at most one piece at a time,
and ends with an error, which is the end of the input for a source that was read to its end. How the
bytes are cut into pieces is not seen by a program that reads byte by byte.
-/

namespace FinalityGadget

inductive ReadError where
  | eof
  | unexpectedEOF
  | other (text : String)
  deriving DecidableEq

def ReadError.text : ReadError → String
  | eof => "EOF"
  | unexpectedEOF => "unexpected EOF"
  | other text => text

/-- `chunks` are the answers of the source to the reads to come, `ending` is the one after them. -/
structure Reader where
  buffered : List UInt8 := []
  chunks : List (List UInt8)
  ending : ReadError := .eof

namespace Reader

/-- The bytes still to be read. -/
def content (r : Reader) : List UInt8 := r.buffered ++ r.chunks.flatten

/-- Between the two readers exactly `bytes` were read. -/
def Reads (r : Reader) (bytes : List UInt8) (after : Reader) : Prop :=
  r.content = bytes ++ after.content ∧ after.ending = r.ending

/-- The first byte, with the buffer and the pieces left. An empty buffer is filled with the next
piece. -/
def takeByte : List UInt8 → List (List UInt8) → Option (UInt8 × List UInt8 × List (List UInt8))
  | byte :: buffered, chunks => some (byte, buffered, chunks)
  | [], [] => none
  | [], chunk :: chunks => takeByte chunk chunks

def readByte : EStateM ReadError Reader UInt8 := fun r ↦
  match takeByte r.buffered r.chunks with
  | none => .error r.ending r
  | some (byte, buffered, chunks) => .ok byte { r with buffered := buffered, chunks := chunks }

section Reading

variable {r middle after : Reader} {bytes rest : List UInt8} {byte : UInt8}

theorem Reads.trans {first second : List UInt8} (h : r.Reads first middle)
    (h' : middle.Reads second after) : r.Reads (first ++ second) after :=
  ⟨by rw [h.1, h'.1, List.append_assoc], h'.2.trans h.2⟩

theorem takeByte_spec (buffered : List UInt8) (chunks : List (List UInt8)) :
    match takeByte buffered chunks with
    | none => buffered ++ chunks.flatten = []
    | some (byte, buffered', chunks') =>
      buffered ++ chunks.flatten = byte :: (buffered' ++ chunks'.flatten) := by
  fun_induction takeByte buffered chunks with
  | case1 => rfl
  | case2 => rfl
  | case3 chunk chunks ih =>
    rw [List.nil_append, List.flatten_cons]
    exact ih

/-- A byte is read unless none is left. -/
inductive ReadByteExit (r : Reader) : EStateM.Result ReadError Reader UInt8 → Prop
  | read {byte : UInt8} {after : Reader} (hreads : r.Reads [byte] after) :
      ReadByteExit r (.ok byte after)
  | ended (hempty : r.content = []) : ReadByteExit r (.error r.ending r)

theorem readByte_spec (r : Reader) : ReadByteExit r (readByte.run r) := by
  have hspec := takeByte_spec r.buffered r.chunks
  have hrun : readByte.run r =
      match takeByte r.buffered r.chunks with
      | none => .error r.ending r
      | some (byte, buffered, chunks) =>
        .ok byte { r with buffered := buffered, chunks := chunks } := rfl
  rw [hrun]
  cases htake : takeByte r.buffered r.chunks with
  | none =>
    rw [htake] at hspec
    exact .ended hspec
  | some taken =>
    rw [htake] at hspec
    have hreads : r.Reads [taken.1] { r with buffered := taken.2.1, chunks := taken.2.2 } :=
      ⟨hspec, rfl⟩
    exact .read hreads

theorem readByte_of_content (h : r.content = byte :: rest) :
    ∃ after, readByte.run r = .ok byte after ∧ r.Reads [byte] after := by
  have hexit := readByte_spec r
  generalize readByte.run r = result at hexit ⊢
  cases hexit with
  | @read value after hreads =>
    have heq : value :: after.content = byte :: rest := hreads.1.symm.trans h
    obtain ⟨rfl, -⟩ := List.cons.inj heq
    exact ⟨after, rfl, hreads⟩
  | ended hempty =>
    rw [h] at hempty
    cases hempty

end Reading

end Reader

end FinalityGadget
