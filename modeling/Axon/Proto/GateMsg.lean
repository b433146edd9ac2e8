import Axon.Codegen.CodecLayout

/-!
# The messages of the gate

`cgate_msg_pb.cc` and `node_msg_pb.cc`, as the generator wrote them from their bodies: the wrapper
`pb_cgate_ctrl` that names the command, and the messages that follow it between the main thread and
the workers.

* **`Record.assign`** : a message object after assignments to its members.
* **`Record.proto`** : the object behind the interface `proto_msg_t` that `tpipe_t::write` uses.
-/

namespace Axon

open Library

namespace Codegen

section Objects

variable {ν : Type} [DecidableEq ν] {body : Body ν}

lemma FieldType.inRange_convert (ft : FieldType) (v : ℤ) : ft.InRange (ft.convert v) := by
  cases ft with
  | int8 => exact Int.bmod_bmod
  | int16 => exact Int.bmod_bmod
  | int32 => exact Int.bmod_bmod
  | uint8 => exact Int.emod_emod_of_dvd v (Int.dvd_refl _)
  | uint16 => exact Int.emod_emod_of_dvd v (Int.dvd_refl _)
  | uint32 => exact Int.emod_emod_of_dvd v (Int.dvd_refl _)
  | uint64 => exact Int.emod_emod_of_dvd v (Int.dvd_refl _)

/-- The value the member `k` holds after `v` has been assigned to it. -/
def Body.convert (body : Body ν) (k : ν) (v : ℤ) : ℤ :=
  match body.fields.find? fun f => f.name = k with
  | some f => f.type.convert v
  | none => v

lemma Body.convert_of_mem {f : Field ν} (hf : f ∈ body.fields) (v : ℤ) :
    body.convert f.name v = f.type.convert v := by
  have hfind : body.fields.find? (fun g => g.name = f.name) = some f := by
    obtain ⟨fields, hnd⟩ := body
    dsimp only at hf ⊢
    induction fields with
    | nil => exact absurd hf (by simp)
    | cons g fields ih =>
        rw [List.map_cons, List.nodup_cons] at hnd
        rcases List.mem_cons.mp hf with rfl | hf
        · simp
        · have hne : g.name ≠ f.name := fun heq =>
            hnd.1 (heq ▸ List.mem_map.mpr ⟨f, hf, rfl⟩)
          rw [List.find?_cons_of_neg (by simpa using hne)]
          exact ih hnd.2 hf
  rw [Body.convert, hfind]

/-- A message object after its members have been assigned the values `v`. -/
def Record.assign (body : Body ν) (v : ν → ℤ) : Record body where
  member := fun k => body.convert k (v k)
  typed := fun f hf => by
    rw [Body.convert_of_mem hf]
    exact f.type.inRange_convert _

variable [Named ν]

/-- A message object as a `proto_msg_t`: the bytes `pack` stores at the address it is given. -/
def Record.proto (r : Record body) : ProtoMsg where
  calSize := (calSize body).toNat
  pack := fun avail =>
    let (mem, ret) := pack body r.member (fun _ => 0) (some 0) avail
    if ret < 0 then none else some (window mem 0 ret.toNat)

lemma Record.proto_calSize (hfit : width body.fields < 2 ^ 31) (r : Record body) :
    r.proto.calSize = width body.fields := by
  rw [Record.proto, calSize_eq hfit, Int.toNat_natCast]

/-- The bytes of a message object. -/
lemma Record.proto_pack (hfit : width body.fields < 2 ^ 31) (hclear : body.Clear)
    (r : Record body) :
    r.proto.pack r.proto.calSize = some (encodeFields body.fields r.member) := by
  rw [r.proto_calSize hfit, Record.proto]
  dsimp only
  rw [pack_eq hfit hclear r.member _ 0 (Nat.le_refl _)]
  dsimp only
  rw [if_neg (by omega), Int.toNat_natCast]
  have hwin := window_blit_self (fun _ => (0 : UInt8)) 0 (encodeFields body.fields r.member)
  rw [length_encodeFields] at hwin
  rw [hwin]

lemma Record.proto_sized (hfit : width body.fields < 2 ^ 31) (hclear : body.Clear)
    (r : Record body) : r.proto.Sized :=
  ⟨_, r.proto_pack hfit hclear, by rw [length_encodeFields, r.proto_calSize hfit]⟩

end Objects

end Codegen

namespace Gate

open Codegen

/-- The members of the gate's messages. -/
inductive GateField where
  | cmd
  | fd
  | hid
  | ip
  | port
  | action
  | lparam
  | wparam
deriving DecidableEq, Repr

/-- The names as the protocol definitions have them. -/
instance : Named GateField where
  spell
    | .cmd => "cmd"
    | .fd => "fd"
    | .hid => "hid"
    | .ip => "ip"
    | .port => "port"
    | .action => "action"
    | .lparam => "lparam"
    | .wparam => "wparam"
  injective k l h := by cases k <;> cases l <;> simp_all

/-- No member of these messages is hidden. -/
lemma clear_gate (body : Body GateField) : body.Clear := by
  intro f _
  cases f.name <;> decide

/-- `pb_cgate_ctrl`. -/
def pbCgateCtrl : Body GateField := ⟨[⟨.cmd, .int16⟩], by decide⟩

/-- `pb_cgate_newconn`. -/
def pbCgateNewconn : Body GateField :=
  ⟨[⟨.fd, .int32⟩, ⟨.hid, .uint32⟩, ⟨.ip, .uint64⟩, ⟨.port, .uint16⟩], by decide⟩

/-- `pb_conn_notify`. -/
def pbConnNotify : Body GateField :=
  ⟨[⟨.fd, .int32⟩, ⟨.hid, .int32⟩, ⟨.action, .int8⟩], by decide⟩

/-- `pb_conn_ctrl`. -/
def pbConnCtrl : Body GateField :=
  ⟨[⟨.fd, .int32⟩, ⟨.hid, .int32⟩, ⟨.action, .int8⟩], by decide⟩

/-- `pb_worker_notify`. -/
def pbWorkerNotify : Body GateField :=
  ⟨[⟨.cmd, .int16⟩, ⟨.lparam, .int32⟩, ⟨.wparam, .int16⟩], by decide⟩

/-- `PT_CGATE_CTRL`, the wrapper type of all gate messages. -/
def ptCgateCtrl : ℕ := 1

/-- `PT_CGATE_NEWCONN` and the other message ids. -/
def ptCgateNewconn : ℤ := 1

@[inherit_doc ptCgateNewconn] def ptWorkerNotify : ℤ := 3

@[inherit_doc ptCgateNewconn] def ptConnNotify : ℤ := 4

@[inherit_doc ptCgateNewconn] def ptConnCtrl : ℤ := 5

/-- `pb_conn_notify::PEER_CLOSE`. -/
def peerClose : ℤ := 1

/-- `pb_conn_ctrl::DO_CLOSE`. -/
def doClose : ℤ := 1

/-- `pb_worker_notify::WORKER_START_OK`. -/
def workerStartOk : ℤ := 1

/-- The constructor of every message sets its members to 0. -/
def zeroed : GateField → ℤ := fun _ => 0

/-- A wrapper that announces the command `cmd`. -/
def cgateCtrl (cmd : ℤ) : Record pbCgateCtrl :=
  Record.assign pbCgateCtrl fun
    | .cmd => cmd
    | _ => 0

end Gate

end Axon
