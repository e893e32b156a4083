import Logbook.Proofs.Delivery.Shipped

/-! What stands between the newlines when a writer fails in the middle of a line. Each line that the
worker takes in hand is a parcel, and each call of the writer moves some of its bytes over. A line
that was accepted as a whole ends a row; in front of it stands what was accepted of the lines that
were given up since the whole line before it (`splitOnP_flatMap_sent`). So a write that fails can
harm one more line than its own, and no other. -/

namespace Logbook.Delivery

/-- How many of the bytes on offer a call accepts. -/
def Call.accepted : Call → Nat
  | accepts n => n
  | fails _ | panics => 0

/-! ## Rows -/

namespace Parcel

/-- The bytes of the line, without its newline. -/
def text (p : Parcel) : List UInt8 := p.line.toUTF8.data.toList

/-- What was accepted behind the last whole line, if there was a beginning before the first one. -/
def torn (head : List UInt8) : List Parcel → List UInt8
  | [] => head
  | p :: parcels => torn (if p.isWhole then [] else head ++ p.sent) parcels

/-- The rows that parcels make behind a beginning. -/
def rows (head : List UInt8) : List Parcel → List (List UInt8)
  | [] => [head]
  | p :: parcels =>
    if p.isWhole then (head ++ p.text) :: rows [] parcels else rows (head ++ p.sent) parcels

variable {p : Parcel} {head : List UInt8} {parcels before : List Parcel}

theorem newline_not_mem_text (h : '\n' ∉ p.line.toList) : (10 : UInt8) ∉ p.text :=
  fun hmem => h (Lossy.newline_mem_of_mem_toUTF8 hmem)

/-- The newline comes last, so that it is not among the first bytes of a line. -/
theorem newline_not_mem_sent (h : '\n' ∉ p.line.toList) (hpart : p.isWhole = false) :
    (10 : UInt8) ∉ p.sent := by
  have hframe : p.text ++ [10] = p.sent ++ p.rest := p.frame_eq
  rcases List.eq_nil_or_concat p.rest with hrest | ⟨rest, last, hrest⟩
  · simp [isWhole, hrest] at hpart
  · rw [hrest, List.concat_eq_append, ← List.append_assoc] at hframe
    have htext : p.text = p.sent ++ rest := (List.append_singleton_inj.mp hframe).1
    exact fun hmem => newline_not_mem_text h (htext ▸ List.mem_append_left _ hmem)

theorem splitOnP_flatMap_sent (hlines : ∀ p ∈ parcels, '\n' ∉ p.line.toList)
    (hhead : (10 : UInt8) ∉ head) :
    (head ++ parcels.flatMap sent).splitOnP (· = 10) = rows head parcels := by
  induction parcels generalizing head with
  | nil =>
    rw [List.flatMap_nil, List.append_nil, rows]
    exact List.splitOnP_eq_singleton fun b hb => decide_eq_false fun hb10 => hhead (hb10 ▸ hb)
  | cons p parcels ih =>
    have hline := hlines p (.head _)
    have hlater : ∀ q ∈ parcels, '\n' ∉ q.line.toList := fun q hq => hlines q (.tail _ hq)
    rw [List.flatMap_cons, ← List.append_assoc, rows]
    cases hwhole : p.isWhole with
    | true =>
      have hfront : ∀ b ∈ head ++ p.text, decide (b = (10 : UInt8)) = false := by
        intro b hb
        refine decide_eq_false fun hb10 => ?_
        rcases List.mem_append.mp hb with hb | hb
        · exact hhead (hb10 ▸ hb)
        · exact newline_not_mem_text hline (hb10 ▸ hb)
      have hsent : p.sent = p.text ++ [10] := sent_of_isWhole hwhole
      rw [if_pos rfl, hsent, ← List.append_assoc, List.append_assoc _ [10], List.singleton_append,
        List.splitOnP_append_cons_of_forall_mem hfront 10 (decide_eq_true rfl)]
      exact congrArg _ (ih hlater List.not_mem_nil)
    | false =>
      rw [if_neg Bool.false_ne_true]
      refine ih hlater fun hmem => ?_
      rcases List.mem_append.mp hmem with hmem | hmem
      · exact hhead hmem
      · exact newline_not_mem_sent hline hwhole hmem

/-- A whole line ends the row that has as many rows in front of it as there are whole lines. -/
theorem getElem?_rows (hwhole : p.isWhole = true) (after : List Parcel) :
    (rows head (before ++ p :: after))[before.countP isWhole]? =
      some (torn head before ++ p.text) := by
  induction before generalizing head with
  | nil =>
    rw [List.nil_append, rows, if_pos hwhole]
    rfl
  | cons q before ih =>
    rw [List.cons_append, rows, torn]
    cases hq : q.isWhole with
    | true =>
      rw [if_pos rfl, if_pos rfl, List.countP_cons_of_pos hq, List.getElem?_cons_succ]
      exact ih
    | false =>
      rw [if_neg Bool.false_ne_true, if_neg Bool.false_ne_true,
        List.countP_cons_of_neg (Bool.eq_false_iff.mp hq)]
      exact ih

theorem torn_append (head : List UInt8) (before after : List Parcel) :
    torn head (before ++ after) = torn (torn head before) after := by
  induction before generalizing head with
  | nil => rfl
  | cons p before ih => exact ih _

/-- Behind a whole line nothing is torn. -/
theorem torn_of_getLast? (h : ∀ q ∈ before.getLast?, q.isWhole = true) : torn [] before = [] := by
  rcases List.eq_nil_or_concat before with rfl | ⟨front, q, rfl⟩
  · rfl
  · rw [List.concat_eq_append] at h ⊢
    rw [torn_append, torn, h q (by simp), if_pos rfl, torn]

/-- A line of which nothing was accepted leaves nothing behind. -/
theorem torn_of_unsent (h : ∀ q ∈ before, q.isWhole = true ∨ q.sent = []) :
    torn [] before = [] := by
  induction before with
  | nil => rfl
  | cons q before ih =>
    have hnil : (if q.isWhole then [] else [] ++ q.sent) = [] := by
      rcases h q (.head _) with hwhole | hsent
      · rw [if_pos hwhole]
      · rw [hsent, List.append_nil, ite_self]
    rw [torn, hnil]
    exact ih fun r hr => h r (.tail _ hr)

end Parcel

/-! ## Parcels on their way -/

/-- A shipment with the lines that its worker has taken in hand, and what was accepted of each. -/
structure Consignment extends Shipment where
  parcels : List Parcel

namespace Consignment

def start : Consignment := ⟨.start, []⟩

inductive Step (writer : Writer) (c : Consignment) : Consignment → Prop where
  | ships (line : String) : Step writer c ⟨c.toShipment.ship line, c.parcels⟩
  | stops : Step writer c ⟨c.toShipment.stop, c.parcels⟩
  | picks {line : String} {queue : List String} {shipper : Shipper}
      (hqueue : c.shipper.queue = line :: queue) (h : c.shipper.pick? = some shipper) :
      Step writer c ⟨{ c.toShipment with shipper := shipper }, c.parcels ++ [.pack line]⟩
  /-- A call of the writer is made for the line in hand. -/
  | writes {before : List Parcel} {p : Parcel} {rest : List UInt8}
      (hparcels : c.parcels = before ++ [p]) (h : c.shipper.worker = .writing rest) :
      Step writer c
        ⟨{ c.toShipment with shipper := (c.shipper.write writer).1,
                             reports := c.reports ++ (c.shipper.write writer).2 },
          before ++ [p.advance (writer.call (c.shipper.calls + 1) rest.length).accepted]⟩
  | flushes (h : c.shipper.mayFlush = true) :
      Step writer c
        ⟨{ c.toShipment with shipper := (c.shipper.flush writer).1,
                             reports := c.reports ++ (c.shipper.flush writer).2,
                             flushed := some c.shipper.written }, c.parcels⟩

inductive Later (writer : Writer) (c : Consignment) : Consignment → Prop where
  | refl : Later writer c c
  | step {d e : Consignment} (H : Later writer c d) (h : d.Step writer e) : Later writer c e

def Reachable (writer : Writer) (c : Consignment) : Prop := start.Later writer c

variable {writer : Writer} {c d : Consignment}

/-- What each step keeps is kept. -/
theorem Later.keeps {Q : Consignment → Prop} (hstep : ∀ {c d}, Q c → c.Step writer d → Q d)
    (H : c.Later writer d) (hc : Q c) : Q d := by
  induction H with
  | refl => exact hc
  | step _ h ih => exact hstep ih h

/-- What was written is what was accepted of the lines that were taken in hand. The worker writes
the last of them, and those behind it wait in the queue unless the worker has crashed. -/
structure Sound (c : Consignment) : Prop where
  written : c.shipper.written = c.parcels.flatMap Parcel.sent
  inHand : ∀ rest, c.shipper.worker = .writing rest →
    ∃ before p, c.parcels = before ++ [p] ∧ p.rest = rest
  waiting : c.shipper.worker ≠ .crashed →
    c.taken = c.parcels.map Parcel.line ++ c.shipper.queue
  taken : ∃ waiting, c.taken = c.parcels.map Parcel.line ++ waiting

theorem sound_start : start.Sound := ⟨rfl, nofun, fun _ => rfl, [], rfl⟩

/-- A call moves over what it accepts. -/
theorem Sound.writes (H : c.Sound) {before : List Parcel} {p : Parcel} {rest : List UInt8}
    (hparcels : c.parcels = before ++ [p]) (h : c.shipper.worker = .writing rest) :
    Sound ⟨{ c.toShipment with shipper := (c.shipper.write writer).1,
                               reports := c.reports ++ (c.shipper.write writer).2 },
      before ++ [p.advance (writer.call (c.shipper.calls + 1) rest.length).accepted]⟩ := by
  obtain ⟨before', p', hparcels', hrest⟩ := H.inHand rest h
  obtain ⟨rfl, rfl⟩ := List.append_singleton_inj.mp (hparcels.symm.trans hparcels')
  have hwritten (n : Nat) : (before ++ [p.advance n]).flatMap Parcel.sent =
      c.shipper.written ++ rest.take n := by
    rw [H.written, hparcels, List.flatMap_append, List.flatMap_append, List.flatMap_singleton,
      List.flatMap_singleton, List.append_assoc, ← hrest]
    rfl
  have hlines (n : Nat) :
      (before ++ [p.advance n]).map Parcel.line = c.parcels.map Parcel.line := by
    rw [hparcels, List.map_append, List.map_append]
    rfl
  have hwaiting := H.waiting (h ▸ nofun)
  have hmove := Shipment.written_write writer h
  generalize c.shipper.write writer = result at hmove ⊢
  cases hmove with
  | done hn hcall =>
    rw [hcall]
    exact ⟨(hwritten _).symm, nofun, fun _ => (hlines _).symm ▸ hwaiting, _,
      (hlines _).symm ▸ hwaiting⟩
  | goesOn hn hcall =>
    rw [hcall]
    refine ⟨(hwritten _).symm, ?_, fun _ => (hlines _).symm ▸ hwaiting, _,
      (hlines _).symm ▸ hwaiting⟩
    rintro _ ⟨⟩
    exact ⟨before, _, rfl, congrArg _ hrest⟩
  | givenUp message hcall =>
    have hnone : (writer.call (c.shipper.calls + 1) rest.length).accepted = 0 := by
      rcases hcall with hcall | hcall <;> rw [hcall] <;> rfl
    rw [hnone]
    refine ⟨?_, nofun, fun _ => (hlines _).symm ▸ hwaiting, _, (hlines _).symm ▸ hwaiting⟩
    exact ((hwritten 0).trans (List.append_nil _)).symm
  | crashed hcall =>
    rw [hcall]
    refine ⟨?_, nofun, fun hworker => absurd rfl hworker, _, (hlines _).symm ▸ hwaiting⟩
    exact ((hwritten 0).trans (List.append_nil _)).symm

theorem Sound.step (H : c.Sound) (h : c.Step writer d) : d.Sound := by
  cases h with
  | ships line =>
    rcases Shipment.ship_cases line c.toShipment with ⟨-, hover, heq⟩ | ⟨-, heq⟩ <;> rw [heq]
    · have hworker : c.shipper.worker ≠ .crashed := by
        intro hworker
        simp [Shipper.isOver, hworker] at hover
      have htaken :
          c.taken ++ [line] = c.parcels.map Parcel.line ++ (c.shipper.queue ++ [line]) := by
        rw [H.waiting hworker, List.append_assoc]
      exact ⟨H.written, H.inHand, fun _ => htaken, _, htaken⟩
    · exact ⟨H.written, H.inHand, H.waiting, H.taken⟩
  | stops => exact ⟨H.written, H.inHand, H.waiting, H.taken⟩
  | @picks line queue shipper hqueue h =>
    obtain ⟨line', queue', worker, hqueue', rfl⟩ := Shipment.of_pick? h
    cases hqueue.symm.trans hqueue'
    have hworker : c.shipper.worker ≠ .crashed := by simp [worker]
    have htaken : c.taken = (c.parcels ++ [Parcel.pack line]).map Parcel.line ++ queue := by
      rw [H.waiting hworker, hqueue, List.map_append, List.append_assoc]
      rfl
    refine ⟨?_, ?_, fun _ => htaken, _, htaken⟩
    · rw [List.flatMap_append, List.flatMap_singleton]
      exact H.written.trans (List.append_nil _).symm
    · rintro _ ⟨⟩
      exact ⟨c.parcels, .pack line, rfl, rfl⟩
  | writes hparcels h => exact H.writes hparcels h
  | flushes h =>
    obtain ⟨worker, -⟩ := Shipment.mayFlush_iff.mp h
    have hworker : c.shipper.worker ≠ .crashed := by simp [worker]
    refine ⟨H.written, ?_, fun _ => H.waiting hworker, H.taken⟩
    rintro _ ⟨⟩

theorem sound_of_reachable (h : Reachable writer c) : c.Sound := h.keeps .step sound_start

/-- The parcels only watch: each run of a shipment is one of a consignment. -/
theorem exists_of_shipment {s : Shipment} (h : Shipment.Reachable writer s) :
    ∃ c, Reachable writer c ∧ c.toShipment = s := by
  induction h with
  | refl => exact ⟨start, .refl, rfl⟩
  | step _ h ih =>
    obtain ⟨c, hc, rfl⟩ := ih
    cases h with
    | ships line => exact ⟨_, hc.step (.ships line), rfl⟩
    | stops => exact ⟨_, hc.step .stops, rfl⟩
    | works h =>
      cases h with
      | picks h =>
        obtain ⟨line, queue, -, hqueue, -⟩ := Shipment.of_pick? h
        exact ⟨_, hc.step (.picks hqueue h), rfl⟩
      | writes h =>
        obtain ⟨before, p, hparcels, -⟩ := (sound_of_reachable hc).inHand _ h
        exact ⟨_, hc.step (.writes hparcels h), rfl⟩
      | flushes h => exact ⟨_, hc.step (.flushes h), rfl⟩

theorem toShipment_of_step (h : c.Step writer d) : c.toShipment.Step writer d.toShipment := by
  cases h with
  | ships line => exact .ships line
  | stops => exact .stops
  | picks _ h => exact .works (.picks h)
  | writes _ h => exact .works (.writes h)
  | flushes h => exact .works (.flushes h)

/-- **What a failed write harms.** The writer accepts and fails as it likes. Between the newlines
stand the rows of the lines that the worker took in hand. So each line that was accepted as a whole
has a row of its own, but for the bytes in front of it that were accepted of lines given up since
the whole line before it. There are none of these bytes if the line right before it was accepted as
a whole, or if each line that was given up was so before any of its bytes was accepted. -/
theorem row_of_whole_line (h : Reachable writer c) (hlines : ∀ line ∈ c.taken, '\n' ∉ line.toList) :
    (∃ waiting, c.taken = c.parcels.map Parcel.line ++ waiting) ∧
    c.shipper.written.splitOnP (· = 10) = Parcel.rows [] c.parcels ∧
    ∀ before p after, c.parcels = before ++ p :: after → p.isWhole = true →
      (c.shipper.written.splitOnP (· = 10))[before.countP Parcel.isWhole]? =
        some (Parcel.torn [] before ++ p.text) ∧
      ((∀ q ∈ before.getLast?, q.isWhole = true) → Parcel.torn [] before = []) ∧
      ((∀ q ∈ before, q.isWhole = true ∨ q.sent = []) → Parcel.torn [] before = []) := by
  have H := sound_of_reachable h
  obtain ⟨waiting, htaken⟩ := H.taken
  have hparcels : ∀ p ∈ c.parcels, '\n' ∉ p.line.toList := fun p hp =>
    hlines p.line (htaken ▸ List.mem_append_left _ (List.mem_map_of_mem hp))
  have hrows : c.shipper.written.splitOnP (· = 10) = Parcel.rows [] c.parcels :=
    H.written ▸ Parcel.splitOnP_flatMap_sent hparcels List.not_mem_nil
  refine ⟨⟨waiting, htaken⟩, hrows, fun before p after hsplit hwhole => ⟨?_, ?_, ?_⟩⟩
  · rw [hrows, hsplit]
    exact Parcel.getElem?_rows hwhole after
  · exact Parcel.torn_of_getLast?
  · exact Parcel.torn_of_unsent

/-- A writer that accepts two bytes at most, and fails in its second call. -/
def tears : Writer :=
  ⟨fun n offered => if n = 2 then .fails "disk full" else .accepts (min 2 offered), .ok ()⟩

/-- Of three lines the first one is torn, and the other two are accepted as a whole. -/
theorem exists_torn : ∃ c : Consignment, Reachable tears c ∧ c.taken = ["abcd", "ef", "gh"] ∧
    (∃ p q r, c.parcels = [p, q, r] ∧ p.sent = [97, 98] ∧ p.isWhole = false ∧
      q.isWhole = true ∧ q.text = [101, 102] ∧ r.isWhole = true ∧ r.text = [103, 104]) ∧
    c.shipper.written = [97, 98, 101, 102, 10, 103, 104, 10] := by
  have h : Reachable tears ⟨start.ship "abcd", []⟩ := .step .refl (.ships "abcd")
  have h := (h.step (.ships "ef")).step (.ships "gh")
  have h := h.step (.picks rfl rfl)
  have h := h.step (@Step.writes _ _ [] _ _ rfl rfl)
  have h := h.step (@Step.writes _ _ [] _ _ rfl rfl)
  have h := h.step (.picks rfl rfl)
  have h := h.step (@Step.writes _ _ [_] _ _ rfl rfl)
  have h := h.step (@Step.writes _ _ [_] _ _ rfl rfl)
  have h := h.step (.picks rfl rfl)
  have h := h.step (@Step.writes _ _ [_, _] _ _ rfl rfl)
  have h := h.step (@Step.writes _ _ [_, _] _ _ rfl rfl)
  exact ⟨_, h, rfl, ⟨_, _, _, rfl, rfl, rfl, rfl, rfl, rfl, rfl⟩, rfl⟩

/-- The second line stands behind what was accepted of the first one, the third one on its own. -/
theorem row_of_whole_line_tears : ∃ c : Consignment, Reachable tears c ∧
    (∀ line ∈ c.taken, '\n' ∉ line.toList) ∧ ∃ p q r, c.parcels = [p, q, r] ∧
      (c.shipper.written.splitOnP (· = 10))[0]? = some ([97, 98] ++ q.text) ∧
      (c.shipper.written.splitOnP (· = 10))[1]? = some r.text := by
  obtain ⟨c, h, htaken, ⟨p, q, r, hparcels, hsent, hp, hq, -, hr, -⟩, -⟩ := exists_torn
  have hlines : ∀ line ∈ c.taken, '\n' ∉ line.toList := by
    rw [htaken]
    decide
  obtain ⟨-, -, hrows⟩ := row_of_whole_line h hlines
  refine ⟨c, h, hlines, p, q, r, hparcels, ?_, ?_⟩
  · obtain ⟨hrow, -⟩ := hrows [p] q [r] hparcels hq
    simpa [Parcel.torn, hp, hsent] using hrow
  · obtain ⟨hrow, -⟩ := hrows [p, q] r [] hparcels hr
    simpa [Parcel.torn, hp, hq] using hrow

/-- A line that was accepted as a whole may have no row of its own. -/
theorem whole_line_behind_torn : ¬ ∀ (writer : Writer) (c : Consignment),
    (∀ n offered, 0 < offered → (∃ k, writer.call n offered = .accepts k ∧ 0 < k ∧ k ≤ offered) ∨
      ∃ message, writer.call n offered = .fails message) →
    Reachable writer c → (∀ line ∈ c.taken, '\n' ∉ line.toList) →
    ∀ p ∈ c.parcels, p.isWhole = true → p.text ∈ c.shipper.written.splitOnP (· = 10) := by
  intro hclaim
  obtain ⟨c, h, htaken, ⟨p, q, r, hparcels, -, -, hq, htext, -⟩, hwritten⟩ := exists_torn
  have hcalls : ∀ n offered, 0 < offered →
      (∃ k, tears.call n offered = .accepts k ∧ 0 < k ∧ k ≤ offered) ∨
        ∃ message, tears.call n offered = .fails message := by
    intro n offered hoffered
    by_cases hn : n = 2
    · exact .inr ⟨"disk full", if_pos hn⟩
    · exact .inl ⟨min 2 offered, if_neg hn, by omega, Nat.min_le_right ..⟩
  have hrow := hclaim tears c hcalls h (by rw [htaken]; decide) q (by rw [hparcels]; simp) hq
  rw [hwritten, htext] at hrow
  exact absurd hrow (by decide)

end Consignment

end Logbook.Delivery
