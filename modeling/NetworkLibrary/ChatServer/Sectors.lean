import NetworkLibrary.ChatServer.Content
import NetworkLibrary.Foundations.Places

/-!
# Sessions, characters and sectors

Where a character is, is kept in its own coordinates and in the sector lists. A job changes this in
one of three ways (`update_cases`): a character is created, it leaves, or it enters a sector of the
array. All else that a job does leaves the sessions and the coordinates as they were (`Frame`), so
that it is enough that these three keep map, lists and coordinates consistent.
-/

namespace NetworkLibrary.ChatServer

open Foundations

/-- A sector of `SectorList`, row and column. -/
def InArray (sector : ℤ × ℤ) : Prop :=
  (0 ≤ sector.1 ∧ sector.1 < kSectorYMax) ∧ 0 ≤ sector.2 ∧ sector.2 < kSectorXMax

/-- The coordinates of a character. -/
def Character.sector (character : Character) : ℤ × ℤ :=
  (character.sectorY.toInt, character.sectorX.toInt)

/-- The character has entered a sector. -/
def Character.Entered (character : Character) : Prop := character.sectorX.toInt ≠ -1

instance (character : Character) : Decidable character.Entered :=
  inferInstanceAs (Decidable (character.sectorX.toInt ≠ -1))

namespace Server

/-- The sector that a character in use is in. -/
def place (s : Server) (c : ℕ) : Option (ℤ × ℤ) :=
  if s.inUse c = true ∧ (s.characters c).Entered then some (s.characters c).sector else none

/-- Sessions, characters and sectors agree. -/
structure Consistent (s : Server) : Prop where
  session : ∀ sessionID c, s.findCharacter sessionID = some c →
    (s.characters c).sessionID = sessionID
  inUse : ∀ c, s.inUse c = true ↔ ∃ sessionID, s.findCharacter sessionID = some c
  inArray : ∀ c, s.inUse c = true → (s.characters c).Entered → InArray (s.characters c).sector
  listed : Listed s.place s.sectorList

/-- The sessions and the coordinates are as they were. -/
structure Frame (s t : Server) : Prop where
  inUse : t.inUse = s.inUse
  characterMap : t.characterMap = s.characterMap
  sectorList : t.sectorList = s.sectorList
  sessionID : ∀ c, (t.characters c).sessionID = (s.characters c).sessionID
  sectorX : ∀ c, (t.characters c).sectorX = (s.characters c).sectorX
  sectorY : ∀ c, (t.characters c).sectorY = (s.characters c).sectorY

variable {s t : Server} {sessionID : UInt64} {c : ℕ} {character : Character} {time : UInt32}

@[simp] theorem characters_set_self : (s.set c character).characters c = character :=
  Function.update_self ..

theorem characters_set_of_ne {d : ℕ} (h : d ≠ c) :
    (s.set c character).characters d = s.characters d :=
  Function.update_of_ne h ..

theorem place_of_not_inUse (h : s.inUse c = false) : s.place c = none :=
  if_neg fun hc => Bool.false_ne_true (h.symm.trans hc.1)

theorem place_of_not_entered (h : ¬(s.characters c).Entered) : s.place c = none :=
  if_neg fun hc => h hc.2

theorem place_congr (hinUse : t.inUse c = s.inUse c) (hc : t.characters c = s.characters c) :
    t.place c = s.place c := by
  simp only [place, hinUse, hc]

theorem place_eq_some {sector : ℤ × ℤ} : s.place c = some sector ↔
    s.inUse c = true ∧ (s.characters c).Entered ∧ (s.characters c).sector = sector := by
  rw [place, Option.ite_none_right_eq_some, Option.some.injEq, and_assoc]

/-! ## What leaves all as it was -/

theorem Frame.refl (s : Server) : s.Frame s :=
  ⟨rfl, rfl, rfl, fun _ => rfl, fun _ => rfl, fun _ => rfl⟩

theorem Frame.trans {u : Server} (h : s.Frame t) (h' : t.Frame u) : s.Frame u where
  inUse := h'.inUse.trans h.inUse
  characterMap := h'.characterMap.trans h.characterMap
  sectorList := h'.sectorList.trans h.sectorList
  sessionID c := (h'.sessionID c).trans (h.sessionID c)
  sectorX c := (h'.sectorX c).trans (h.sectorX c)
  sectorY c := (h'.sectorY c).trans (h.sectorY c)

theorem frame_set (hsession : character.sessionID = (s.characters c).sessionID)
    (hx : character.sectorX = (s.characters c).sectorX)
    (hy : character.sectorY = (s.characters c).sectorY) : s.Frame (s.set c character) := by
  refine ⟨rfl, rfl, rfl, fun d => ?_, fun d => ?_, fun d => ?_⟩ <;> by_cases hd : d = c
  · rw [hd, characters_set_self, hsession]
  · rw [characters_set_of_ne hd]
  · rw [hd, characters_set_self, hx]
  · rw [characters_set_of_ne hd]
  · rw [hd, characters_set_self, hy]
  · rw [characters_set_of_ne hd]

theorem frame_touch (c : ℕ) (time : UInt32) : s.Frame (s.touch c time) := frame_set rfl rfl rfl

theorem Frame.findCharacter (h : s.Frame t) (sessionID : UInt64) :
    t.findCharacter sessionID = s.findCharacter sessionID := by
  rw [Server.findCharacter, h.characterMap, Server.findCharacter]

theorem Frame.sector (h : s.Frame t) (c : ℕ) : (t.characters c).sector = (s.characters c).sector := by
  rw [Character.sector, h.sectorX, h.sectorY, Character.sector]

theorem Frame.entered (h : s.Frame t) (c : ℕ) :
    (t.characters c).Entered ↔ (s.characters c).Entered := by
  rw [Character.Entered, h.sectorX, Character.Entered]

theorem Frame.place (h : s.Frame t) (c : ℕ) : t.place c = s.place c := by
  simp only [Server.place, h.inUse, h.sector, h.entered]

theorem Frame.consistent (h : s.Frame t) (hs : s.Consistent) : t.Consistent where
  session sessionID c hc := by
    rw [h.findCharacter] at hc
    rw [h.sessionID, hs.session sessionID c hc]
  inUse c := by simp only [h.inUse, h.findCharacter, hs.inUse]
  inArray c := by
    rw [h.inUse, h.entered, h.sector]
    exact hs.inArray c
  listed := by
    rw [h.sectorList]
    exact hs.listed.congr h.place

/-! ## Creating, leaving, entering -/

theorem Consistent.inUse_of_findCharacter (hs : s.Consistent)
    (hc : s.findCharacter sessionID = some c) : s.inUse c = true :=
  (hs.inUse c).2 ⟨sessionID, hc⟩

/-- No two sessions have the same character. -/
theorem Consistent.findCharacter_inj (hs : s.Consistent) {sessionID' : UInt64}
    (hc : s.findCharacter sessionID = some c) (hc' : s.findCharacter sessionID' = some c) :
    sessionID = sessionID' :=
  (hs.session _ c hc).symm.trans (hs.session _ c hc')

theorem createCharacter_eq_some (hid : sessionID ∉ s.characterMap)
    (h : s.createCharacter sessionID c time = some t) : s.inUse c = false ∧
      t = { s with
        inUse := Function.update s.inUse c true
        characters := Function.update s.characters c { s.characters c with
          sessionID := sessionID, accountNo := 0, sectorX := -1, lastRecvTime := time }
        characterMap := s.characterMap.insert sessionID c } := by
  rw [createCharacter, if_neg hid, Option.ite_none_left_eq_some] at h
  exact ⟨Bool.eq_false_iff.2 h.1, (Option.some.inj h.2).symm⟩

theorem Consistent.createCharacter (hs : s.Consistent) (hid : sessionID ∉ s.characterMap)
    (h : s.createCharacter sessionID c time = some t) : t.Consistent := by
  obtain ⟨hfree, rfl⟩ := createCharacter_eq_some hid h
  have hnew : ∀ id d, s.findCharacter id = some d → id ≠ sessionID ∧ d ≠ c := by
    intro id d hd
    constructor
    · rintro rfl
      exact hid (AList.lookup_isSome.1 (Option.isSome_of_mem hd))
    · rintro rfl
      rw [hs.inUse_of_findCharacter hd] at hfree
      cases hfree
  refine ⟨fun id d hd => ?_, fun d => ?_, fun d => ?_, hs.listed.congr fun d => ?_⟩
  · by_cases hi : id = sessionID
    · obtain rfl : c = d := by
        rw [hi] at hd
        exact Option.some.inj ((AList.lookup_insert _).symm.trans hd)
      dsimp only
      rw [Function.update_self, hi]
    · have hd : s.findCharacter id = some d := (AList.lookup_insert_ne hi).symm.trans hd
      dsimp only
      rw [Function.update_of_ne (hnew id d hd).2, hs.session id d hd]
  · dsimp only
    by_cases hd : d = c
    · rw [hd, Function.update_self]
      exact iff_of_true rfl ⟨sessionID, AList.lookup_insert _⟩
    · rw [Function.update_of_ne hd, hs.inUse]
      constructor
      · rintro ⟨id, hid'⟩
        exact ⟨id, (AList.lookup_insert_ne (hnew id d hid').1).trans hid'⟩
      · rintro ⟨id, hid'⟩
        have hi : id ≠ sessionID := by
          rintro rfl
          exact hd (Option.some.inj (hid'.symm.trans (AList.lookup_insert _)))
        exact ⟨id, (AList.lookup_insert_ne hi).symm.trans hid'⟩
  · dsimp only
    by_cases hd : d = c
    · rw [hd, Function.update_self, Function.update_self]
      exact fun _ hentered => absurd rfl hentered
    · rw [Function.update_of_ne hd, Function.update_of_ne hd]
      exact hs.inArray d
  · by_cases hd : d = c
    · rw [hd, place_of_not_inUse hfree]
      refine place_of_not_entered ?_
      dsimp only
      rw [Function.update_self]
      exact fun hentered => hentered rfl
    · exact place_congr (Function.update_of_ne hd ..) (Function.update_of_ne hd ..)

/-- The lists once the character is erased, if it has entered a sector. -/
theorem Consistent.listed_erase (hs : s.Consistent) (hc : s.inUse c = true) {P : Prop} [Decidable P]
    (hP : P ↔ (s.characters c).Entered) :
    Listed (Function.update s.place c none)
      (if P then s.erase (s.characters c).sectorY.toInt (s.characters c).sectorX.toInt c
        else s).sectorList := by
  by_cases hentered : (s.characters c).Entered
  · rw [if_pos (hP.2 hentered)]
    exact hs.listed.take (place_eq_some.2 ⟨hc, hentered, rfl⟩) (Function.update_self ..)
      fun d hd => Function.update_of_ne hd ..
  · rw [if_neg fun h => hentered (hP.1 h)]
    refine hs.listed.congr fun d => ?_
    by_cases hd : d = c
    · rw [hd, Function.update_self, place_of_not_entered hentered]
    · rw [Function.update_of_ne hd]

/-- Both of its coordinates are not negative where a character has entered a sector. -/
theorem Consistent.entered_iff (hs : s.Consistent) (hc : s.inUse c = true) :
    (0 ≤ (s.characters c).sectorX.toInt ∧ 0 ≤ (s.characters c).sectorY.toInt) ↔
      (s.characters c).Entered := by
  constructor
  · rintro ⟨hx, -⟩ hx'
    omega
  · intro hentered
    obtain ⟨⟨hy, -⟩, hx, -⟩ := hs.inArray c hc hentered
    exact ⟨hx, hy⟩

theorem leaveCharacter_eq (hc : s.findCharacter sessionID = some c) :
    s.leaveCharacter sessionID = ({ s with
      inUse := Function.update s.inUse c false
      characterMap := s.characterMap.erase sessionID
      sectorList := (if 0 ≤ (s.characters c).sectorX.toInt ∧ 0 ≤ (s.characters c).sectorY.toInt
        then s.erase (s.characters c).sectorY.toInt (s.characters c).sectorX.toInt c
        else s).sectorList }, []) := by
  simp only [leaveCharacter, hc]
  split_ifs <;> rfl

theorem Consistent.leaveCharacter (hs : s.Consistent) (hc : s.findCharacter sessionID = some c) :
    (s.leaveCharacter sessionID).1.Consistent := by
  have hinUse := hs.inUse_of_findCharacter hc
  have hfind : ∀ id d, (s.characterMap.erase sessionID).lookup id = some d →
      id ≠ sessionID ∧ s.findCharacter id = some d := by
    intro id d hd
    have hi : id ≠ sessionID := by
      rintro rfl
      exact Option.some_ne_none d (hd.symm.trans (AList.lookup_erase ..))
    exact ⟨hi, (AList.lookup_erase_ne hi).symm.trans hd⟩
  have hother : ∀ id d, id ≠ sessionID → s.findCharacter id = some d → d ≠ c := by
    rintro id d hi hd rfl
    exact hi (hs.findCharacter_inj hd hc)
  rw [leaveCharacter_eq hc]
  refine ⟨fun id d hd => ?_, fun d => ?_, fun d => ?_, ?_⟩
  · exact hs.session id d (hfind id d hd).2
  · dsimp only
    by_cases hd : d = c
    · rw [hd, Function.update_self]
      refine iff_of_false Bool.false_ne_true ?_
      rintro ⟨id, hid⟩
      exact hother id c (hfind id c hid).1 (hfind id c hid).2 rfl
    · rw [Function.update_of_ne hd, hs.inUse]
      constructor
      · rintro ⟨id, hid⟩
        have hi : id ≠ sessionID := by
          rintro rfl
          exact hd (Option.some.inj (hid.symm.trans hc))
        exact ⟨id, (AList.lookup_erase_ne hi).trans hid⟩
      · rintro ⟨id, hid⟩
        exact ⟨id, (hfind id d hid).2⟩
  · dsimp only
    by_cases hd : d = c
    · rw [hd, Function.update_self]
      exact fun h => absurd h Bool.false_ne_true
    · rw [Function.update_of_ne hd]
      exact hs.inArray d
  · refine (hs.listed_erase hinUse (hs.entered_iff hinUse)).congr fun d => ?_
    by_cases hd : d = c
    · rw [hd, Function.update_self]
      exact place_of_not_inUse (Function.update_self ..)
    · rw [Function.update_of_ne hd]
      exact place_congr (Function.update_of_ne hd ..) rfl

/-- A word below 50 is the same as a `short`. -/
theorem toInt_of_lt {x : BitVec 16} (h : x.toNat < 50) : x.toInt = x.toNat :=
  BitVec.toInt_eq_toNat_of_lt (by omega)

theorem enter_eq (sectorX sectorY : BitVec 16) :
    s.enter c sectorX sectorY = { s with
      characters := Function.update s.characters c
        { s.characters c with sectorX := sectorX, sectorY := sectorY }
      sectorList :=
        let list := (if (s.characters c).Entered then
          s.erase (s.characters c).sectorY.toInt (s.characters c).sectorX.toInt c else s).sectorList
        Function.update list (sectorY.toNat, sectorX.toNat)
          (list (sectorY.toNat, sectorX.toNat) ++ [c]) } := by
  by_cases h : (s.characters c).Entered
  · simp only [enter, if_pos h, if_pos (show (s.characters c).sectorX.toInt ≠ -1 from h)]
    rfl
  · simp only [enter, if_neg h, if_neg (show ¬(s.characters c).sectorX.toInt ≠ -1 from h)]
    rfl

theorem Consistent.enter (hs : s.Consistent) (hc : s.inUse c = true) {sectorX sectorY : BitVec 16}
    (hx : sectorX.toNat < 50) (hy : sectorY.toNat < 50) :
    (s.enter c sectorX sectorY).Consistent := by
  rw [enter_eq]
  refine ⟨fun id d hd => ?_, fun d => hs.inUse d, fun d hd => ?_, ?_⟩
  · rw [← hs.session id d hd]
    dsimp only
    by_cases hdc : d = c
    · rw [hdc, Function.update_self]
    · rw [Function.update_of_ne hdc]
  · by_cases hdc : d = c
    · dsimp only
      rw [hdc, Function.update_self]
      intro _
      rw [Character.sector, toInt_of_lt hx, toInt_of_lt hy]
      exact ⟨⟨Int.natCast_nonneg _, Int.ofNat_lt.2 hy⟩, Int.natCast_nonneg _, Int.ofNat_lt.2 hx⟩
    · dsimp only
      rw [Function.update_of_ne hdc]
      exact hs.inArray d hd
  · refine (hs.listed_erase hc Iff.rfl).put (Function.update_self ..) ?_ fun d hd => ?_
    · rw [place_eq_some]
      dsimp only
      rw [Function.update_self, Character.sector, toInt_of_lt hx, toInt_of_lt hy]
      refine ⟨hc, fun h => ?_, rfl⟩
      dsimp only at h
      rw [toInt_of_lt hx] at h
      omega
    · rw [Function.update_of_ne hd]
      exact place_congr rfl (Function.update_of_ne hd ..)

/-! ## Jobs -/

theorem frame_login (packet : Packet) : s.Frame (s.login sessionID c packet).1 := by
  unfold login
  dsimp only
  split_ifs
  · exact Frame.refl s
  · exact frame_set rfl rfl rfl

theorem frame_chatMessage (packet : Packet) : s.Frame (s.chatMessage c packet).1 := by
  unfold chatMessage
  dsimp only
  split_ifs
  · exact Frame.refl s
  · exact Frame.refl s
  · exact ⟨rfl, rfl, rfl, fun _ => rfl, fun _ => rfl, fun _ => rfl⟩

theorem sectorMove_cases (packet : Packet) : s.Frame (s.sectorMove sessionID c packet).1 ∨
    ∃ sectorX sectorY, sectorX.toNat < 50 ∧ sectorY.toNat < 50 ∧
      (s.sectorMove sessionID c packet).1 = s.enter c sectorX sectorY := by
  unfold sectorMove
  dsimp only
  split_ifs with haccount hsector
  · exact .inl (Frame.refl s)
  · exact .inr ⟨_, _, Int.ofNat_lt.1 hsector.1.2, Int.ofNat_lt.1 hsector.2.2, rfl⟩
  · exact .inl (Frame.refl s)

/-- **What a message does**: its character enters a sector, or all stays where it was. -/
theorem dispatch_cases (s : Server) (sessionID : UInt64) (c : ℕ) (messageType : BitVec 16) (packet : Packet) :
    s.Frame (s.dispatch sessionID c messageType packet).1 ∨
      ∃ sectorX sectorY, sectorX.toNat < 50 ∧ sectorY.toNat < 50 ∧
        (s.dispatch sessionID c messageType packet).1 = s.enter c sectorX sectorY := by
  unfold dispatch
  split_ifs
  · exact .inl (Frame.refl s)
  · exact .inl (frame_login packet)
  · exact sectorMove_cases packet
  · exact .inl (frame_chatMessage packet)
  · exact .inl (Frame.refl s)
  · exact .inl (Frame.refl s)

theorem messageControl_eq (hc : s.findCharacter sessionID = some c) (packet : Packet) :
    (s.messageControl sessionID packet time).1 =
      ((s.touch c time).dispatch sessionID c (extractWord packet).1
        (extractWord packet).2).1 := by
  simp only [messageControl, hc]

theorem Consistent.messageControl (hs : s.Consistent) (hc : s.findCharacter sessionID = some c)
    (packet : Packet) (time : UInt32) : (s.messageControl sessionID packet time).1.Consistent ∧
      (s.messageControl sessionID packet time).1.characterMap = s.characterMap := by
  have hframe : s.Frame (s.touch c time) := frame_touch c time
  rw [messageControl_eq hc]
  rcases (s.touch c time).dispatch_cases sessionID c (extractWord packet).1
    (extractWord packet).2 with hsame | ⟨sectorX, sectorY, hx, hy, henter⟩
  · exact ⟨(hframe.trans hsame).consistent hs, (hframe.trans hsame).characterMap⟩
  · rw [henter]
    refine ⟨(hframe.consistent hs).enter ?_ hx hy, by rw [enter_eq]; rfl⟩
    rw [hframe.inUse]
    exact hs.inUse_of_findCharacter hc

/-- **One job.** -/
theorem Consistent.update (hs : s.Consistent) {phase : UInt64 → Phase}
    (hmap : ∀ sessionID, sessionID ∈ s.characterMap ↔ phase sessionID = .joined) {job : Job}
    (horder : job.inOrder phase = true) {events : List Event}
    (h : s.update job = some (t, events)) : t.Consistent ∧
      ∀ sessionID, sessionID ∈ t.characterMap ↔ job.advance phase sessionID = .joined := by
  have hfound : ∀ {sessionID}, phase sessionID = .joined →
      ∃ c, s.findCharacter sessionID = some c := fun hphase =>
    Option.isSome_iff_exists.1 (AList.lookup_isSome.2 ((hmap _).2 hphase))
  cases job with
  | join sessionID c time =>
    have hphase : phase sessionID = .unknown := of_decide_eq_true horder
    have hid : sessionID ∉ s.characterMap := by
      rw [hmap, hphase]
      exact Phase.noConfusion
    obtain ⟨u, hu, hpair⟩ := Option.map_eq_some_iff.1 h
    obtain ⟨rfl, -⟩ := Prod.mk.inj hpair
    refine ⟨hs.createCharacter hid hu, fun id => ?_⟩
    obtain ⟨-, rfl⟩ := createCharacter_eq_some hid hu
    rw [AList.mem_insert, hmap, Job.advance]
    by_cases hi : id = sessionID
    · rw [hi, Function.update_self]
      exact iff_of_true (.inl rfl) rfl
    · rw [Function.update_of_ne hi]
      exact or_iff_right hi
  | message sessionID packet time =>
    obtain ⟨c, hc⟩ := hfound (of_decide_eq_true horder)
    obtain ⟨ht, hmap'⟩ := hs.messageControl hc packet.packet time
    obtain rfl : (s.messageControl sessionID packet.packet time).1 = t :=
      congrArg Prod.fst (Option.some.inj h)
    exact ⟨ht, fun id => by rw [hmap', hmap, Job.advance]⟩
  | leave sessionID =>
    obtain ⟨c, hc⟩ := hfound (of_decide_eq_true horder)
    have ht := hs.leaveCharacter hc
    obtain rfl : (s.leaveCharacter sessionID).1 = t := congrArg Prod.fst (Option.some.inj h)
    refine ⟨ht, fun id => ?_⟩
    rw [leaveCharacter_eq hc, AList.mem_erase, hmap, Job.advance]
    by_cases hi : id = sessionID
    · rw [hi, Function.update_self]
      exact iff_of_false (fun h => h.1 rfl) Phase.noConfusion
    · rw [Function.update_of_ne hi]
      exact and_iff_right hi
  | heartbeat time =>
    obtain rfl : s = t := congrArg Prod.fst (Option.some.inj h)
    exact ⟨hs, hmap⟩

end Server

/-! ## Runs -/

/-- The server agrees with itself and with what has come of the sessions. -/
structure State.Consistent (s : State) : Prop where
  server : s.server.Consistent
  map : ∀ sessionID, sessionID ∈ s.server.characterMap ↔ s.phase sessionID = .joined

theorem consistent_of_init {s : State} (h : jobs.init s) : s.Consistent := by
  obtain ⟨hmap, hlist, hinUse, hphase, -⟩ := h
  have hfind (id : UInt64) (c : ℕ) : s.server.findCharacter id ≠ some c := by
    rw [Server.findCharacter, hmap, AList.lookup_empty]
    exact (Option.some_ne_none c).symm
  refine ⟨⟨fun id c hc => absurd hc (hfind id c), fun c => ?_, fun c hc => ?_, ?_⟩, fun id => ?_⟩
  · rw [hinUse]
    exact iff_of_false Bool.false_ne_true fun ⟨id, hid⟩ => hfind id c hid
  · rw [hinUse] at hc
    cases hc
  · exact Listed.empty (fun c => Server.place_of_not_inUse (hinUse c)) hlist
  · rw [hmap, hphase]
    exact iff_of_false (AList.notMem_empty id) Phase.noConfusion

/-- **Every run.** Sessions, characters and sectors agree in every state that is reached. -/
theorem consistent_of_reachable {s : State} (h : jobs.Reachable s) : s.Consistent := by
  refine h.invariant (fun _ => consistent_of_init) fun s job t hs _ hstep => ?_
  obtain ⟨-, horder, server, events, hupdate, rfl⟩ := step_eq_some.1 hstep
  exact ⟨(hs.server.update hs.map horder hupdate).1, (hs.server.update hs.map horder hupdate).2⟩

/-- **Characters are where they say.** After every job `CharacterMap` has exactly the sessions that
have joined and not left. The character of such a session is listed once in the sector of its
coordinates, which is one of the array, and in no other; or its `SectorX` is -1, and it is listed
nowhere. A character that is not in use is listed nowhere. -/
theorem listed_where_entered {s : State} (h : jobs.Reachable s) :
    (∀ sessionID, sessionID ∈ s.server.characterMap ↔ s.phase sessionID = .joined) ∧
    (∀ sessionID c, s.server.findCharacter sessionID = some c →
      ((s.server.characters c).sectorX.toInt ≠ -1 →
        InArray (s.server.characters c).sector ∧
        ∀ sector, (s.server.sectorList sector).count c =
          if sector = (s.server.characters c).sector then 1 else 0) ∧
      ((s.server.characters c).sectorX.toInt = -1 → ∀ sector, c ∉ s.server.sectorList sector)) ∧
    ∀ sector, ∀ c ∈ s.server.sectorList sector, s.server.inUse c = true := by
  obtain ⟨hs, hmap⟩ := consistent_of_reachable h
  refine ⟨hmap, fun sessionID c hc => ⟨fun hx => ⟨?_, fun sector => ?_⟩, fun hx sector hmem => ?_⟩,
    fun sector c hmem => ?_⟩
  · exact hs.inArray c (hs.inUse_of_findCharacter hc) hx
  · have hplace := Server.place_eq_some.2 ⟨hs.inUse_of_findCharacter hc, hx, rfl⟩
    simp only [hs.listed sector c, hplace, Option.some.injEq, eq_comm]
  · exact (Server.place_eq_some.1 (hs.listed.mem_iff.1 hmem)).2.1 hx
  · exact (Server.place_eq_some.1 (hs.listed.mem_iff.1 hmem)).1

/-- A session that has joined and has gone to column 5 of row 7. -/
theorem listed_where_entered_moved : ∃ s, jobs.Reachable s ∧ s.server.sectorList (7, 5) = [0] ∧
    (∀ sessionID, sessionID ∈ s.server.characterMap ↔ s.phase sessionID = .joined) ∧
    s.server.inUse 0 = true := by
  obtain ⟨s, hs, hlist⟩ := Lts.exists_reachable_of_run init_empty
    [.join 1 0 0, .message 1 (.ofList [3, 0, 0, 0, 0, 0, 0, 0, 0, 0, 5, 0, 7, 0] (by decide)) 0]
    (p := fun s => s.server.sectorList (7, 5) = [0]) (by decide)
  have hlist := of_decide_eq_true hlist
  have h := listed_where_entered hs
  exact ⟨s, hs, hlist, h.1, h.2.2 (7, 5) 0 (hlist ▸ List.mem_singleton_self 0)⟩

end NetworkLibrary.ChatServer
