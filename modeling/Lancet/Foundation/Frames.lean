import Lancet.Foundation.Wire

/-! Streams of frames, each a header that gives the number of bytes behind it. A reader that
knows nothing else gets the frames back if and only if every header gives the right number. -/
namespace Foundation.Wire

/-- The next `count` bytes. -/
def chunk (count : Nat) : Reader (List UInt8) := fun bytes =>
  if count ≤ bytes.length then some (bytes.take count,bytes.drop count) else none

theorem chunk_append (body rest : List UInt8) : chunk body.length (body ++ rest) = some (body,rest) := by
  have long : body.length ≤ (body ++ rest).length := by
    rw [List.length_append]
    exact Nat.le_add_right _ _
  rw [chunk,if_pos long,List.take_left,List.drop_left]

theorem chunk_length {count : Nat} {bytes body rest : List UInt8} (read : chunk count bytes = some (body,rest)) :
    body.length = count := by
  rw [chunk] at read
  split at read
  next long =>
    cases read
    rw [List.length_take]
    exact Nat.min_eq_left long
  next => cases read

structure Framing (H : Type) where
  encode : H → List UInt8
  header : Reader H
  bodyLength : H → Nat
  encoded : ∀ hdr rest, header (encode hdr ++ rest) = some (hdr,rest)
  present : ∀ hdr, encode hdr ≠ []

structure Frame (H : Type) where
  hdr : H
  body : List UInt8
  deriving DecidableEq

section Frames
variable {H : Type} (framing : Framing H)

def Frame.bytes (frame : Frame H) : List UInt8 := framing.encode frame.hdr ++ frame.body

def Frame.Fits (frame : Frame H) : Prop := framing.bodyLength frame.hdr = frame.body.length

def readFrame : Reader (Frame H) := do
  let hdr ← framing.header
  let body ← chunk (framing.bodyLength hdr)
  return ⟨hdr,body⟩

/-- Frame after frame to the end of the bytes, in at most so many passes. -/
def readFrames : Nat → List UInt8 → Option (List (Frame H))
  | _, [] => some []
  | 0, _ :: _ => none
  | passes + 1, bytes => match readFrame framing bytes with
    | none => none
    | some (frame,rest) => (readFrames passes rest).map (frame :: ·)

def unframe (bytes : List UInt8) : Option (List (Frame H)) := readFrames framing bytes.length bytes

variable {framing}

theorem readFrame_bytes {frame : Frame H} (fits : frame.Fits framing) (rest : List UInt8) :
    readFrame framing (frame.bytes framing ++ rest) = some (frame,rest) := by
  have body : chunk (framing.bodyLength frame.hdr) (frame.body ++ rest) = some (frame.body,rest) := by
    rw [fits]
    exact chunk_append _ _
  rw [readFrame,Frame.bytes,List.append_assoc,Reader.bind_run _ (framing.encoded _ _),Reader.bind_run _ body]
  rfl

theorem readFrame_fits {bytes rest : List UInt8} {frame : Frame H} (read : readFrame framing bytes = some (frame,rest)) :
    frame.Fits framing := by
  obtain ⟨hdr,rest',-,read⟩ := Reader.of_bind read
  obtain ⟨body,rest'',taken,read⟩ := Reader.of_bind read
  cases read
  exact (chunk_length taken).symm

theorem readFrames_cons (passes : Nat) (byte : UInt8) (bytes : List UInt8) :
    readFrames framing (passes + 1) (byte :: bytes) = match readFrame framing (byte :: bytes) with
      | none => none
      | some (frame,rest) => (readFrames framing passes rest).map (frame :: ·) := rfl

theorem readFrames_fit {passes : Nat} {bytes : List UInt8} {frames : List (Frame H)}
    (read : readFrames framing passes bytes = some frames) : ∀ frame ∈ frames, frame.Fits framing := by
  induction passes generalizing bytes frames with
  | zero =>
    cases bytes with
    | nil =>
      cases read
      simp
    | cons byte bytes => cases read
  | succ passes ih =>
    cases bytes with
    | nil =>
      cases read
      simp
    | cons byte bytes =>
      rw [readFrames_cons] at read
      split at read
      next => cases read
      next first rest taken =>
        obtain ⟨frames',read',rfl⟩ := Option.map_eq_some_iff.mp read
        intro frame inside
        rcases List.mem_cons.mp inside with rfl | later
        · exact readFrame_fits taken
        · exact ih read' frame later

theorem readFrames_flatMap {passes : Nat} {frames : List (Frame H)} (fit : ∀ frame ∈ frames, frame.Fits framing)
    (enough : frames.length ≤ passes) : readFrames framing passes (frames.flatMap (Frame.bytes framing)) = some frames := by
  induction frames generalizing passes with
  | nil =>
    rw [List.flatMap_nil,readFrames]
  | cons frame frames ih =>
    obtain ⟨passes,rfl⟩ := Nat.exists_eq_add_of_le' (Nat.le_trans (Nat.le_add_left 1 _) enough)
    have first := readFrame_bytes (fit frame List.mem_cons_self) (frames.flatMap (Frame.bytes framing))
    have rest : readFrames framing passes (frames.flatMap (Frame.bytes framing)) = some frames :=
      ih (fun later inside => fit later (List.mem_cons_of_mem _ inside)) (Nat.le_of_succ_le_succ enough)
    rw [List.flatMap_cons]
    rcases held : frame.bytes framing ++ frames.flatMap (Frame.bytes framing) with _ | ⟨byte,bytes⟩
    · have empty := (List.append_eq_nil_iff.mp (List.append_eq_nil_iff.mp held).1).1
      exact absurd empty (framing.present frame.hdr)
    · rw [readFrames_cons,← held,first]
      dsimp only
      rw [rest]
      rfl

theorem length_le_flatMap (frames : List (Frame H)) : frames.length ≤ (frames.flatMap (Frame.bytes framing)).length := by
  induction frames with
  | nil => exact Nat.le_refl _
  | cons frame frames ih =>
    have positive : 0 < (framing.encode frame.hdr).length := List.length_pos_iff.mpr (framing.present _)
    rw [List.flatMap_cons,List.length_append,Frame.bytes,List.length_append,List.length_cons]
    omega

theorem unframe_iff (frames : List (Frame H)) :
    unframe framing (frames.flatMap (Frame.bytes framing)) = some frames ↔ ∀ frame ∈ frames, frame.Fits framing :=
  ⟨readFrames_fit,fun fit => readFrames_flatMap fit (length_le_flatMap frames)⟩

end Frames
end Foundation.Wire
