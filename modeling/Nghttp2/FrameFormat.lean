/-
# Frames on the wire

Frame headers, SETTINGS payloads and the lengths of padding, as `nghttp2_frame.c` writes
and reads them.

* `unpackFrameHd`: the header of a frame that comes in;
* `unpackSettingsPayload2_packSettingsPayload`: SETTINGS are read as they were written.
-/
import Nghttp2.BigEndian
import Nghttp2.HdData

namespace Nghttp2.Format

open BigEndian
open Hd (Bytes)

/-! ## Frame headers -/

/-- The frame types. -/
inductive FrameType
  | data
  | headers
  | priority
  | rstStream
  | settings
  | pushPromise
  | ping
  | goaway
  | windowUpdate
  | continuation
deriving DecidableEq, Repr

/-- The value of a frame type in the header of a frame. -/
def FrameType.code : FrameType → UInt8
  | .data => 0
  | .headers => 1
  | .priority => 2
  | .rstStream => 3
  | .settings => 4
  | .pushPromise => 5
  | .ping => 6
  | .goaway => 7
  | .windowUpdate => 8
  | .continuation => 9

/-- `NGHTTP2_FLAG_END_HEADERS`. -/
def flagEndHeaders : UInt8 := 0x4

/-- `NGHTTP2_FLAG_PADDED`. -/
def flagPadded : UInt8 := 0x8

/-- `NGHTTP2_FLAG_PRIORITY`. -/
def flagPriority : UInt8 := 0x20

/-- A flag is set. -/
def hasFlag (flags flag : UInt8) : Bool := flags &&& flag ≠ 0

/-- `nghttp2_frame_hd`, without the reserved bit, which is not written. -/
structure FrameHd where
  length : ℕ
  type : UInt8
  flags : UInt8
  streamId : ℕ
deriving DecidableEq, Repr

/-- `NGHTTP2_FRAME_HDLEN`. -/
def frameHdlen : ℕ := 9

/-- `nghttp2_frame_pack_frame_hd`: the length takes three bytes, because the type is
written over the fourth. -/
def packFrameHd (hd : FrameHd) : Bytes :=
  ((putBe 4 (256 * hd.length)).set 3 hd.type ++ [hd.flags]) ++ putBe 4 hd.streamId

/-- `nghttp2_frame_unpack_frame_hd`. -/
def unpackFrameHd (buf : Bytes) : FrameHd where
  length := getBe (buf.take 4) / 256
  type := buf.getD 3 0
  flags := buf.getD 4 0
  streamId := getBe ((buf.drop 5).take 4) % 2 ^ 31

/-- `nghttp2_frame_priority_len`. -/
def priorityLen (flags : UInt8) : ℕ := if hasFlag flags flagPriority then 5 else 0

/-- `nghttp2_frame_trail_padlen`, a computation on `size_t`. -/
def trailPadlen (hd : FrameHd) (padlen : ℕ) : ℕ :=
  (padlen + 2 ^ 64 - if hasFlag hd.flags flagPadded then 1 else 0) % 2 ^ 64

/-- `inbound_frame_effective_readlen`. -/
def effectiveReadlen (trail payloadleft readlen : ℕ) : ℤ :=
  if trail > payloadleft then
    let padlen := trail - payloadleft
    if readlen < padlen then -1 else readlen - padlen
  else readlen

/-! ## SETTINGS -/

/-- `nghttp2_settings_entry`. -/
structure SettingsEntry where
  settingsId : ℕ
  value : ℕ
deriving DecidableEq, Repr

/-- The header of a SETTINGS frame after `nghttp2_frame_settings_init`. -/
def settingsInit (flags : UInt8) (iv : List SettingsEntry) : FrameHd :=
  ⟨6 * iv.length, FrameType.settings.code, flags, 0⟩

/-- `nghttp2_frame_pack_settings_payload`. -/
def packSettingsPayload (iv : List SettingsEntry) : Bytes :=
  iv.flatMap fun e => putBe 2 e.settingsId ++ putBe 4 e.value

/-- `nghttp2_frame_unpack_settings_entry`. -/
def unpackSettingsEntry (payload : Bytes) : SettingsEntry where
  settingsId := getBe (payload.take 2)
  value := getBe ((payload.drop 2).take 4)

/-- `nghttp2_frame_unpack_settings_payload2`. -/
def unpackSettingsPayload2 (payload : Bytes) : List SettingsEntry :=
  (List.range (payload.length / 6)).map fun i => unpackSettingsEntry (payload.drop (i * 6))

/-- `nghttp2_frame_pack_settings`, into a buffer that has `room` bytes behind the space for
the header; `none` stands for `NGHTTP2_ERR_FRAME_SIZE_ERROR`. -/
def packSettings (room : ℕ) (hd : FrameHd) (iv : List SettingsEntry) : Option Bytes :=
  if room < hd.length then none else some (packFrameHd hd ++ packSettingsPayload iv)

theorem length_packSettingsPayload (iv : List SettingsEntry) :
    (packSettingsPayload iv).length = 6 * iv.length := by
  induction iv with
  | nil => rfl
  | cons e iv ih =>
    rw [packSettingsPayload, List.flatMap_cons, List.length_append, ← packSettingsPayload, ih]
    simp
    ring

theorem unpackSettingsEntry_append {e : SettingsEntry}
    (h : e.settingsId < 2 ^ 16 ∧ e.value < 2 ^ 32) (rest : Bytes) :
    unpackSettingsEntry (putBe 2 e.settingsId ++ putBe 4 e.value ++ rest) = e := by
  unfold unpackSettingsEntry
  rw [List.append_assoc, List.take_left' (by simp), List.drop_left' (by simp),
    List.take_left' (by simp), getBe_putBe_of_lt (by omega), getBe_putBe_of_lt (by omega)]

/-- **SETTINGS are read as they were written.** -/
theorem unpackSettingsPayload2_packSettingsPayload {iv : List SettingsEntry}
    (h : ∀ e ∈ iv, e.settingsId < 2 ^ 16 ∧ e.value < 2 ^ 32) :
    unpackSettingsPayload2 (packSettingsPayload iv) = iv := by
  unfold unpackSettingsPayload2
  rw [length_packSettingsPayload, Nat.mul_div_cancel_left _ (by decide)]
  induction iv with
  | nil => rfl
  | cons e iv ih =>
    have hcons : packSettingsPayload (e :: iv) =
        putBe 2 e.settingsId ++ putBe 4 e.value ++ packSettingsPayload iv := rfl
    rw [List.length_cons, List.range_succ_eq_map, List.map_cons, List.map_map, hcons]
    congr 1
    · exact unpackSettingsEntry_append (h e List.mem_cons_self) _
    conv_rhs => rw [← ih fun e' he' => h e' (List.mem_cons_of_mem _ he')]
    refine List.map_congr_left fun i _ => ?_
    -- the first entry takes six bytes
    have hdrop : (i + 1) * 6 = (putBe 2 e.settingsId ++ putBe 4 e.value).length + i * 6 := by
      simp
      ring
    show unpackSettingsEntry (List.drop ((i + 1) * 6) _) = _
    rw [hdrop, List.drop_length_add_append]

end Nghttp2.Format
