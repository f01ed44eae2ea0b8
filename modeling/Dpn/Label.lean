import Dpn.Message

/-!
# Labels

A label names the two ends of a package.  On the wire it is the memory of a
`Label::Contents`: a 32-bit message ID, a 16-bit interface type and the two
interface descriptions, little-endian, with two bytes of padding behind them.
-/

namespace Dpn

open ByteBuffer

abbrev PeerID := UInt16
abbrev PortID := UInt16
abbrev InterfaceID := UInt16
abbrev MessageID := UInt32

structure InterfaceDescription where
  peerID : PeerID
  portID : PortID
  interfaceID : InterfaceID
  deriving DecidableEq, Repr

inductive LabelEndpoint where
  | src
  | dest
  deriving DecidableEq, Repr

/-- `Label::Contents`.  No function looks at the type, which on the wire may
be any 16-bit value. -/
structure Contents where
  messageID : MessageID
  type : UInt16
  src : InterfaceDescription
  dest : InterfaceDescription
  deriving DecidableEq, Repr

/-- `sizeof(Label::Contents)`. -/
def contentsSizeof : ℕ := 20

structure Label where
  contents : Contents
  deriving DecidableEq, Repr

namespace Label

/-- The constructor.  It leaves the ID and the type open, here zero. -/
def new : Label :=
  ⟨⟨0, 0, ⟨0, 0, 0⟩, ⟨0, 0, 0⟩⟩⟩

def getEndpoint (label : Label) : LabelEndpoint → InterfaceDescription
  | .src => label.contents.src
  | .dest => label.contents.dest

def getInterfaceID (label : Label) (side : LabelEndpoint) : InterfaceID :=
  (label.getEndpoint side).interfaceID

def getPortID (label : Label) (side : LabelEndpoint) : PortID :=
  (label.getEndpoint side).portID

def getPeerID (label : Label) (side : LabelEndpoint) : PeerID :=
  (label.getEndpoint side).peerID

def setPeerID (label : Label) (peerID : PeerID) : LabelEndpoint → Label
  | .src => ⟨{ label.contents with src.peerID := peerID }⟩
  | .dest => ⟨{ label.contents with dest.peerID := peerID }⟩

def swap (label : Label) : Label :=
  ⟨{ label.contents with
    src := label.contents.dest
    dest := label.contents.src }⟩

end Label

/-! ## The memory of a label -/

def InterfaceDescription.encode (description : InterfaceDescription) :
    List UInt8 :=
  littleEndian 2 description.peerID.toNat ++
    littleEndian 2 description.portID.toNat ++
    littleEndian 2 description.interfaceID.toNat

def Contents.encode (contents : Contents) : List UInt8 :=
  littleEndian 4 contents.messageID.toNat ++
    littleEndian 2 contents.type.toNat ++
    contents.src.encode ++ contents.dest.encode ++ [0, 0]

def field (memory : List UInt8) (position : ℕ) : UInt16 :=
  UInt16.ofNat (ofLittleEndian ((memory.drop position).take 2))

def InterfaceDescription.decode (memory : List UInt8) (position : ℕ) :
    InterfaceDescription where
  peerID := field memory position
  portID := field memory (position + 2)
  interfaceID := field memory (position + 4)

/-- What a `Label::Contents *` that points to the memory reads. -/
def Contents.decode (memory : List UInt8) : Contents where
  messageID := UInt32.ofNat (ofLittleEndian (memory.take 4))
  type := field memory 4
  src := InterfaceDescription.decode memory 6
  dest := InterfaceDescription.decode memory 12

@[simp] theorem length_encode_description
    (description : InterfaceDescription) :
    description.encode.length = 6 := by
  simp [InterfaceDescription.encode]

@[simp] theorem length_encode (contents : Contents) :
    contents.encode.length = contentsSizeof := by
  simp [Contents.encode, contentsSizeof]

theorem field_of_eq {memory before after : List UInt8} {word : UInt16}
    {position : ℕ}
    (hmemory : memory = before ++ (littleEndian 2 word.toNat ++ after))
    (hposition : before.length = position) :
    field memory position = word := by
  have hword : ofLittleEndian (littleEndian 2 word.toNat) = word.toNat :=
    ofLittleEndian_littleEndian_of_lt word.toNat_lt
  rw [field, hmemory, List.drop_left' hposition,
    List.take_left' (length_littleEndian 2 _), hword, UInt16.ofNat_toNat]

theorem decode_description_of_eq {memory before after : List UInt8}
    {description : InterfaceDescription} {position : ℕ}
    (hmemory : memory = before ++ (description.encode ++ after))
    (hposition : before.length = position) :
    InterfaceDescription.decode memory position = description := by
  simp only [InterfaceDescription.encode, List.append_assoc] at hmemory
  have hpeer : field memory position = description.peerID :=
    field_of_eq hmemory hposition
  have hport : field memory (position + 2) = description.portID := by
    rw [← List.append_assoc] at hmemory
    exact field_of_eq hmemory (by simp [hposition])
  have hinterface : field memory (position + 4) = description.interfaceID := by
    rw [← List.append_assoc, ← List.append_assoc] at hmemory
    exact field_of_eq hmemory (by simp [hposition])
  rw [InterfaceDescription.decode, hpeer, hport, hinterface]

/-- A label is read back from its memory, whatever follows it. -/
theorem decode_encode_append (contents : Contents) (after : List UInt8) :
    Contents.decode (contents.encode ++ after) = contents := by
  have hmemory : contents.encode ++ after =
      littleEndian 4 contents.messageID.toNat ++
        (littleEndian 2 contents.type.toNat ++
          (contents.src.encode ++
            (contents.dest.encode ++ ([0, 0] ++ after)))) := by
    simp only [Contents.encode, List.append_assoc]
  have hmessage : UInt32.ofNat (ofLittleEndian
      ((contents.encode ++ after).take 4)) = contents.messageID := by
    rw [hmemory, List.take_left' (length_littleEndian 4 _),
      ofLittleEndian_littleEndian_of_lt contents.messageID.toNat_lt,
      UInt32.ofNat_toNat]
  have htype : field (contents.encode ++ after) 4 = contents.type :=
    field_of_eq hmemory (length_littleEndian 4 _)
  have hsrc : InterfaceDescription.decode (contents.encode ++ after) 6 =
      contents.src := by
    rw [← List.append_assoc] at hmemory
    exact decode_description_of_eq hmemory (by simp)
  have hdest : InterfaceDescription.decode (contents.encode ++ after) 12 =
      contents.dest := by
    rw [← List.append_assoc, ← List.append_assoc] at hmemory
    exact decode_description_of_eq hmemory (by simp)
  rw [Contents.decode, hmessage, htype, hsrc, hdest]

@[simp] theorem decode_encode (contents : Contents) :
    Contents.decode contents.encode = contents := by
  simpa using decode_encode_append contents []

theorem field_take {memory : List UInt8} {position count : ℕ}
    (hcount : position + 2 ≤ count) :
    field (memory.take count) position = field memory position := by
  have htwo : min 2 (count - position) = 2 := by omega
  rw [field, List.drop_take, List.take_take, htwo, field]

theorem decode_append_of_length {memory : List UInt8} (after : List UInt8)
    (hlength : memory.length = contentsSizeof) :
    Contents.decode (memory ++ after) = Contents.decode memory := by
  have hmemory : memory = (memory ++ after).take contentsSizeof :=
    (List.take_left' hlength).symm
  have hmessage : (memory ++ after).take 4 =
      ((memory ++ after).take contentsSizeof).take 4 := by
    rw [List.take_take]
    rfl
  have hfield : ∀ position, position + 2 ≤ contentsSizeof →
      field (memory ++ after) position = field memory position := by
    intro position hposition
    conv_rhs => rw [hmemory]
    exact (field_take hposition).symm
  rw [Contents.decode, Contents.decode, hmessage, ← hmemory]
  simp (disch := decide) only [InterfaceDescription.decode, hfield]

end Dpn
