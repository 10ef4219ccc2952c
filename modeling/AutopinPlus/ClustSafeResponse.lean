import Mathlib.Algebra.GroupWithZero.Nat
import AutopinPlus.PerformanceMonitor
import AutopinPlus.QtText
import AutopinPlus.Tools

/-!
# The protocol of the ClustSafe device

A request and a response are frames of bytes. The receiver drops one expected field after the other from
the response and takes the payload by what is left of its length, before it has seen the length field. It
accepts the frames of the protocol and nothing else.
-/
namespace AutopinPlus

namespace QByteArray

def startsWith (array start : List UInt8) : Bool := start.isPrefixOf array

/-- `mid`, which goes to the end for a negative `n`. -/
def mid (array : List UInt8) (position : Nat) (n : Int) : List UInt8 :=
  if n < 0 then array.drop position else (array.drop position).take n.toNat

def leftJustified (array : List UInt8) (width : Nat) (fill : UInt8) (truncate : Bool) : List UInt8 :=
  if array.length < width then array ++ List.replicate (width - array.length) fill
  else if truncate then array.take width
  else array

def toHex (array : List UInt8) : String :=
  String.ofList (array.flatMap fun b => [Nat.digitChar (b.toNat / 16), Nat.digitChar (b.toNat % 16)])

end QByteArray

namespace ClustSafe

open QByteArray

/-- How one exchange with the device goes. -/
structure Socket where
  /-- The connection is ready in time. -/
  waitForConnected : Bool
  /-- The number of bytes sent of a request. -/
  write : List UInt8 → Int
  /-- Something arrives in time. -/
  waitForReadyRead : Bool
  readAll : List UInt8

def signature : List UInt8 := QString.toStdString "MEGware".toList

def timeout : Nat := 1000

/-- A number in network byte order. -/
def toArray (value : UInt16) : List UInt8 := [(value >>> 8).toUInt8, value.toUInt8]

def calculateChecksum (array : List UInt8) : UInt8 := array.foldl (· + ·) 0

def checkAndDrop (array start : List UInt8) (field : String) : Except String (List UInt8) :=
  if startsWith array start then .ok (array.drop start.length)
  else .error (".checkAndDrop(" ++ toHex array ++ ", " ++ toHex start ++ ", " ++ field ++
    ") failed: Second argument is not a prefix of the first argument.")

/-- The receiving part of `sendCommand`: the payload of a response. -/
def receive (command : UInt16) (response : List UInt8) : Except String (List UInt8) := do
  let response ← checkAndDrop response signature "signature"
  let response ← checkAndDrop response [1] "device"
  let response ← checkAndDrop response [1] "status"
  let response ← checkAndDrop response (List.replicate 15 0) "padding"
  let response ← checkAndDrop response (toArray command) "command"
  let payload := mid response 2 (response.length - 2 - 1)
  let response ← checkAndDrop response (toArray payload.length.toUInt16) "length"
  let response ← checkAndDrop response payload "payload"
  let _ ← checkAndDrop response
    [calculateChecksum (toArray command ++ toArray payload.length.toUInt16 ++ payload)] "checksum"
  return payload

def request (password : String) (command : UInt16) (data : List UInt8) : List UInt8 :=
  signature ++ [0] ++ leftJustified (QString.toStdString password.toList) 16 0 true ++ toArray command ++
    toArray data.length.toUInt16 ++ data.take 0xFFFF ++
    [calculateChecksum (toArray command ++ toArray data.length.toUInt16 ++ data.take 0xFFFF)]

def sendCommand (socket : Socket) (password : String) (command : UInt16) (data : List UInt8) :
    Except String (List UInt8) :=
  let failed (what : String) : String :=
    ".sendCommand(" ++ toString command.toNat ++ ", " ++ toHex data ++ ") failed: " ++ what
  let request := request password command data
  if !socket.waitForConnected then
    .error (failed ("Could not establish connection within " ++ toString timeout ++ " ms"))
  else if socket.write request ≠ request.length then .error (failed "Could not send request.")
  else if !socket.waitForReadyRead then
    .error (failed ("Did not receive any data within " ++ toString timeout ++ " ms"))
  else receive command socket.readAll

/-! ## Frames -/

/-- The two bytes of a number below 2^16, most significant first. -/
def be16 (n : Nat) : List UInt8 := [UInt8.ofNat (n / 256), UInt8.ofNat (n % 256)]

/-- The sum of bytes modulo 256. -/
def sum8 (array : List UInt8) : UInt8 := UInt8.ofNat ((array.map UInt8.toNat).sum % 256)

/-- The response that carries a payload. -/
def frame (command : UInt16) (payload : List UInt8) : List UInt8 :=
  [77, 69, 71, 119, 97, 114, 101] ++ [1] ++ [1] ++ List.replicate 15 0 ++ be16 command.toNat ++
    be16 (payload.length % 2 ^ 16) ++ payload ++
      [sum8 (be16 command.toNat ++ be16 (payload.length % 2 ^ 16) ++ payload)]

theorem signature_eq : signature = [77, 69, 71, 119, 97, 114, 101] := by
  rw [signature, String.toList_ofList]
  decide

theorem toArray_eq (value : UInt16) : toArray value = be16 value.toNat := by
  have hhigh : (value >>> 8).toUInt8 = UInt8.ofNat (value.toNat / 256) := by
    apply UInt8.toNat_inj.mp
    simp [Nat.shiftRight_eq_div_pow]
  have hlow : value.toUInt8 = UInt8.ofNat (value.toNat % 256) := by
    apply UInt8.toNat_inj.mp
    simp
  rw [toArray, be16, hhigh, hlow]

theorem toArray_length (n : Nat) : toArray n.toUInt16 = be16 (n % 2 ^ 16) := by
  rw [toArray_eq]
  congr 1

theorem calculateChecksum_eq (array : List UInt8) : calculateChecksum array = sum8 array := by
  have hfold : ∀ (start : UInt8),
      (array.foldl (· + ·) start).toNat = (start.toNat + (array.map UInt8.toNat).sum) % 256 := by
    induction array with
    | nil =>
      intro start
      have hlt := start.toNat_lt
      simp
    | cons b array ih =>
      intro start
      rw [List.foldl_cons, ih, List.map_cons, List.sum_cons, UInt8.toNat_add]
      omega
  apply UInt8.toNat_inj.mp
  rw [calculateChecksum, hfold, sum8]
  simp

/-! ## Dropping a field -/

theorem checkAndDrop_append (start rest : List UInt8) (field : String) :
    checkAndDrop (start ++ rest) start field = .ok rest := by
  simp [checkAndDrop, startsWith]

theorem checkAndDrop_self (start : List UInt8) (field : String) : checkAndDrop start start field = .ok [] := by
  simpa using checkAndDrop_append start [] field

theorem checkAndDrop_ok {array start rest : List UInt8} {field : String}
    (h : checkAndDrop array start field = .ok rest) : array = start ++ rest := by
  by_cases hstart : startsWith array start = true
  · rw [checkAndDrop, if_pos hstart] at h
    cases h
    exact (List.prefix_iff_eq_append.mp (List.isPrefixOf_iff_prefix.mp hstart)).symm
  · rw [checkAndDrop, if_neg hstart] at h
    cases h

/-! ## The payload by the length of the rest -/

/-- Of length field, payload and checksum, `mid` takes the payload. -/
theorem mid_payload {size : List UInt8} (hsize : size.length = 2) (payload : List UInt8) (checksum : UInt8) :
    mid (size ++ payload ++ [checksum]) 2 ((size ++ payload ++ [checksum]).length - 2 - 1) = payload := by
  have hlength : ((size ++ payload ++ [checksum]).length : Int) - 2 - 1 = payload.length := by
    simp only [List.length_append, List.length_singleton, hsize]
    omega
  have hdrop : (size ++ payload ++ [checksum]).drop 2 = payload ++ [checksum] := by
    rw [List.append_assoc, ← hsize, List.drop_left]
  rw [hlength, mid, if_neg (by omega), hdrop, Int.toNat_natCast, List.take_left]

/-- Behind the payload that was cut out there is only the byte of the checksum. -/
theorem rest_eq_nil {size payload rest : List UInt8} {checksum : UInt8} (hsize : size.length = 2)
    (h : payload = mid (size ++ payload ++ checksum :: rest) 2
      ((size ++ payload ++ checksum :: rest).length - 2 - 1)) : rest = [] := by
  have hlength : ((size ++ payload ++ checksum :: rest).length : Int) - 2 - 1 =
      ((payload.length + rest.length : Nat) : Int) := by
    simp only [List.length_append, List.length_cons, hsize]
    omega
  rw [hlength, mid, if_neg (by omega), Int.toNat_natCast] at h
  have hcut := congrArg List.length h
  simp only [List.length_take, List.length_drop, List.length_append, List.length_cons, hsize] at hcut
  apply List.length_eq_zero_iff.mp
  omega

/-- A payload in its frame is received as it was sent. -/
theorem receive_frame (command : UInt16) (payload : List UInt8) :
    receive command (frame command payload) = .ok payload := by
  have hsize : (be16 (payload.length % 2 ^ 16)).length = 2 := rfl
  have hmid := mid_payload hsize payload (sum8 (be16 command.toNat ++ be16 (payload.length % 2 ^ 16) ++ payload))
  unfold receive frame
  rw [signature_eq, toArray_eq]
  simp only [List.append_assoc, checkAndDrop_append, ok_bind] at hmid ⊢
  simp only [hmid, toArray_length, calculateChecksum_eq, checkAndDrop_append, ok_bind]
  rw [checkAndDrop_self]
  rfl

/-- What is received comes from the frame of the payload returned. -/
theorem eq_frame_of_receive {command : UInt16} {response payload : List UInt8}
    (h : receive command response = .ok payload) : response = frame command payload := by
  obtain ⟨afterSignature, hsignature, h⟩ := bind_eq_ok h
  obtain ⟨afterDevice, hdevice, h⟩ := bind_eq_ok h
  obtain ⟨afterStatus, hstatus, h⟩ := bind_eq_ok h
  obtain ⟨afterPadding, hpadding, h⟩ := bind_eq_ok h
  obtain ⟨body, hcommand, h⟩ := bind_eq_ok h
  obtain ⟨afterLength, hlength, h⟩ := bind_eq_ok h
  obtain ⟨afterPayload, hpayload, h⟩ := bind_eq_ok h
  obtain ⟨rest, hchecksum, h⟩ := bind_eq_ok h
  have hcut : payload = mid body 2 (body.length - 2 - 1) := by
    cases h
    rfl
  rw [← hcut] at hlength hpayload hchecksum
  have hbody := checkAndDrop_ok hlength
  rw [checkAndDrop_ok hpayload, checkAndDrop_ok hchecksum, toArray_length, ← List.append_assoc,
    List.singleton_append] at hbody
  rw [hbody] at hcut
  have hnil := rest_eq_nil rfl hcut
  rw [checkAndDrop_ok hsignature, checkAndDrop_ok hdevice, checkAndDrop_ok hstatus, checkAndDrop_ok hpadding,
    checkAndDrop_ok hcommand, hbody, hnil, signature_eq, calculateChecksum_eq, toArray_eq]
  simp only [frame, List.append_assoc]

/-- A response is accepted exactly as the frame of the payload returned, and every other one throws. -/
theorem receive_ok_iff (command : UInt16) (response : List UInt8) :
    (∀ payload, receive command response = .ok payload ↔
      response = [77, 69, 71, 119, 97, 114, 101] ++ [1] ++ [1] ++ List.replicate 15 0 ++ be16 command.toNat ++
        be16 (payload.length % 2 ^ 16) ++ payload ++
          [sum8 (be16 command.toNat ++ be16 (payload.length % 2 ^ 16) ++ payload)]) ∧
    ((∃ what, receive command response = .error what) ↔ ∀ payload, response ≠ frame command payload) := by
  constructor
  · intro payload
    constructor
    · exact eq_frame_of_receive
    · rintro rfl
      exact receive_frame command payload
  · constructor
    · rintro ⟨what, h⟩ payload rfl
      rw [receive_frame] at h
      cases h
    · intro hother
      cases h : receive command response with
      | error what => exact ⟨what, rfl⟩
      | ok payload => exact absurd (eq_frame_of_receive h) (hother payload)

example : receive 0x010F ([77, 69, 71, 119, 97, 114, 101, 1, 1] ++ List.replicate 15 0 ++
    [1, 15, 0, 4, 0, 0, 2, 150, 172]) = .ok [0, 0, 2, 150] := by decide +kernel

/-- The whole exchange gives a payload exactly if each of its steps is done and the device answers with a frame. -/
theorem sendCommand_ok_iff (socket : Socket) (password : String) (command : UInt16) (data payload : List UInt8) :
    sendCommand socket password command data = .ok payload ↔
      socket.waitForConnected = true ∧
      socket.write (request password command data) = (request password command data).length ∧
      socket.waitForReadyRead = true ∧ socket.readAll = frame command payload := by
  have hreceive : receive command socket.readAll = .ok payload ↔ socket.readAll = frame command payload := by
    constructor
    · exact eq_frame_of_receive
    · intro h
      rw [h, receive_frame]
  rw [← hreceive, sendCommand]
  cases hconnected : socket.waitForConnected with
  | false => simp
  | true =>
    by_cases hwrite : socket.write (request password command data) = (request password command data).length
    · cases hready : socket.waitForReadyRead with
      | false => simp [hwrite]
      | true => simp [hwrite]
    · simp [hwrite]

end ClustSafe

end AutopinPlus
