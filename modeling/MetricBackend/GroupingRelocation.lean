import MetricBackend.EventGrouping
import MetricBackend.LibParallel
import Mathlib.Data.List.Pairwise

/-! Native grouping and load addresses: moving the images of an event, each by an offset of its own, together with
the addresses inside them leaves the grouping key alone. -/

namespace MetricBackend

namespace EventGrouping

/-- An image of a given size and the two addresses that it is loaded at. -/
structure ImageMove where
  identity : Text
  size : Nat
  before : Nat
  after : Nat

/-- The image as a module, at one of its addresses. -/
def ImageMove.module (place : ImageMove → Nat) (move : ImageMove) : NativeModule :=
  ⟨move.identity, place move, some move.size⟩

/-- The address lies in the image. -/
def ImageMove.Covers (place : ImageMove → Nat) (move : ImageMove) (address : Nat) : Prop :=
  place move ≤ address ∧ address < place move + move.size

/-- Images that do not overlap and end within 64 bits. -/
structure Loaded (place : ImageMove → Nat) (moves : List ImageMove) : Prop where
  disjoint : moves.Pairwise fun left right => ∀ address, ¬ (left.Covers place address ∧ right.Covers place address)
  fits : ∀ move ∈ moves, place move + move.size ≤ 2 ^ 64

/-- What becomes of an instruction address: it moves with its image, or stays outside of all images. -/
inductive AddressMoved (moves : List ImageMove) : Option Nat → Option Nat → Prop where
  | unread : AddressMoved moves none none
  | inside {move : ImageMove} {offset : Nat} (hmove : move ∈ moves) (hoffset : offset < move.size) :
      AddressMoved moves (some (move.before + offset)) (some (move.after + offset))
  | outside {address moved : Nat} (hbefore : ∀ move ∈ moves, ¬ move.Covers ImageMove.before address)
      (hafter : ∀ move ∈ moves, ¬ move.Covers ImageMove.after moved) : AddressMoved moves (some address) (some moved)

/-- A frame whose addresses, and nothing else, have moved. -/
structure FrameMoved (moves : List ImageMove) (frame moved : NormalizedFrame) : Prop where
  instruction : AddressMoved moves (frame.instructionAddress.bind parseHexAddress)
    (moved.instructionAddress.bind parseHexAddress)
  instructionPresent : moved.instructionAddress.isSome = frame.instructionAddress.isSome
  symbolPresent : moved.symbolAddress.isSome = frame.symbolAddress.isSome
  other : moved = { frame with
    instructionAddress := moved.instructionAddress
    symbolAddress := moved.symbolAddress }

structure ExceptionMoved (moves : List ImageMove) (exception moved : NormalizedException) : Prop where
  stacktrace : List.Forall₂ (FrameMoved moves) exception.stacktrace moved.stacktrace
  ty : moved.ty = exception.ty

/-- The images of `debug_meta`. -/
def debugImages (body : NormalizedEventBody) : List CanonicalValue :=
  match body.unknown.lookup "debug_meta".toList with
  | some (.object debugMeta) =>
      match debugMeta.lookup "images".toList with
      | some (.array images) => images
      | _ => []
  | _ => []

/-- One body is the other with its images loaded elsewhere, each by an offset of its own and in whatever order. -/
structure Relocated (moves : List ImageMove) (body moved : NormalizedEventBody) : Prop where
  images : ((debugImages body).map nativeModule).Perm (moves.map fun move => some (move.module ImageMove.before))
  movedImages : ((debugImages moved).map nativeModule).Perm (moves.map fun move => some (move.module ImageMove.after))
  loaded : Loaded ImageMove.before moves
  movedLoaded : Loaded ImageMove.after moves
  exceptions : List.Forall₂ (ExceptionMoved moves) body.exceptions moved.exceptions
  stacktrace : List.Forall₂ (FrameMoved moves) body.stacktrace moved.stacktrace
  logger : moved.logger = body.logger
  message : moved.message = body.message
  fingerprint : moved.fingerprint = body.fingerprint

/-! ### Modules -/

theorem nativeModules_perm (body : NormalizedEventBody) :
    (nativeModules body).Perm ((debugImages body).filterMap nativeModule) := by
  rw [nativeModules, debugImages]
  cases body.unknown.lookup "debug_meta".toList with
  | none => exact .nil
  | some value =>
      cases value with
      | object debugMeta =>
          dsimp only
          cases debugMeta.lookup "images".toList with
          | none => exact .nil
          | some value =>
              cases value with
              | array images => exact List.perm_insertionSort _ _
              | _ => exact .nil
      | _ => exact .nil

theorem parseHexAddress_lt {text : Text} {address : Nat} (h : parseHexAddress text = some address) :
    address < 2 ^ 64 := by
  unfold parseHexAddress at h
  dsimp only at h
  split_ifs at h
  simpa using (Option.filter_eq_some_iff.mp h).2

section Resolving

variable {place : ImageMove → Nat} {moves : List ImageMove} {modules : List NativeModule} {frame : NormalizedFrame}
  {move : ImageMove} {address : Nat}

/-- A module without overflow contains the addresses that the image covers. -/
theorem contains_module (hfits : place move + move.size ≤ 2 ^ 64) (haddress : address < 2 ^ 64) :
    (move.module place).contains address = true ↔ move.Covers place address := by
  rw [NativeModule.contains, decide_eq_true_eq, ImageMove.Covers]
  refine and_congr_right fun _ => ?_
  show ((some (place move + move.size)).filter (· < 2 ^ 64)).all (fun stop => decide (address < stop)) = true ↔ _
  by_cases hend : place move + move.size < 2 ^ 64
  · rw [Option.filter_some, if_pos (decide_eq_true hend), Option.all_some, decide_eq_true_eq]
  · have hlast : address < place move + move.size := by omega
    rw [Option.filter_some, if_neg (by rwa [decide_eq_true_eq])]
    exact iff_of_true rfl hlast

variable (hmodules : modules.Perm (moves.map fun move => move.module place)) (hloaded : Loaded place moves)
include hmodules hloaded

theorem resolveAddress_inside {offset : Nat} (hmove : move ∈ moves) (hoffset : offset < move.size)
    (haddress : frame.instructionAddress.bind parseHexAddress = some (place move + offset)) :
    resolveAddress modules frame = some (move.identity, offset) := by
  have hend := hloaded.fits move hmove
  have hcovers : move.Covers place (place move + offset) := ⟨Nat.le_add_right _ _, by omega⟩
  have hfind : modules.reverse.find? (·.contains (place move + offset)) = some (move.module place) := by
    refine find?_eq_some_of_unique ?_ ((contains_module hend (by omega)).mpr hcovers) ?_
    · exact List.mem_reverse.mpr (hmodules.mem_iff.mpr (List.mem_map_of_mem hmove))
    · intro other hother hcontains
      obtain ⟨found, hfound, rfl⟩ := List.mem_map.mp (hmodules.mem_iff.mp (List.mem_reverse.mp hother))
      have hboth := (contains_module (hloaded.fits found hfound) (by omega)).mp hcontains
      by_contra hne
      have hsymm : Std.Symm fun left right : ImageMove =>
          ∀ address, ¬ (left.Covers place address ∧ right.Covers place address) :=
        ⟨fun left right h address hcovers => h address hcovers.symm⟩
      exact hloaded.disjoint.forall hfound hmove (fun heq => hne (by rw [heq])) _ ⟨hboth, hcovers⟩
  rw [resolveAddress, haddress]
  simp only [Option.bind_eq_bind, Option.bind_some, hfind, Option.pure_def, Option.some.injEq, Prod.mk.injEq]
  exact ⟨rfl, Nat.add_sub_cancel_left _ _⟩

theorem resolveAddress_outside (houtside : ∀ move ∈ moves, ¬ move.Covers place address)
    (haddress : frame.instructionAddress.bind parseHexAddress = some address) :
    resolveAddress modules frame = none := by
  obtain ⟨text, -, hparse⟩ := Option.bind_eq_some_iff.mp haddress
  have hfind : modules.reverse.find? (·.contains address) = none := by
    refine List.find?_eq_none.mpr fun other hother hcontains => ?_
    obtain ⟨found, hfound, rfl⟩ := List.mem_map.mp (hmodules.mem_iff.mp (List.mem_reverse.mp hother))
    exact houtside found hfound ((contains_module (hloaded.fits found hfound) (parseHexAddress_lt hparse)).mp hcontains)
  rw [resolveAddress, haddress]
  simp only [Option.bind_eq_bind, Option.bind_some, hfind, Option.bind_none]

end Resolving

/-! ### Bodies -/

theorem FrameMoved.rawIdentity_eq {moves : List ImageMove} {frame movedFrame : NormalizedFrame}
    (hframe : FrameMoved moves frame movedFrame) :
    rawIdentity movedFrame = rawIdentity frame := by
  have hinstruction : movedFrame.instructionAddress.isNone = frame.instructionAddress.isNone := by
    rw [← Option.not_isSome, ← Option.not_isSome, hframe.instructionPresent]
  have hsymbol : movedFrame.symbolAddress.isNone = frame.symbolAddress.isNone := by
    rw [← Option.not_isSome, ← Option.not_isSome, hframe.symbolPresent]
  rw [rawIdentity, rawIdentity, hinstruction, hsymbol, hframe.other]

theorem significantFrames_eq {moves : List ImageMove} {raw movedRaw : List NormalizedFrame}
    (hframes : List.Forall₂ (FrameMoved moves) raw movedRaw) (derived : Option (List SymbolicatedFrame)) :
    significantFrames movedRaw derived = significantFrames raw derived := by
  have hsame : raw.zipIdx.filterMap (frameIdentity (derived.getD []))
      = movedRaw.zipIdx.filterMap (frameIdentity (derived.getD [])) := by
    refine filterMap_eq_of_forall₂ (fun left right hboth => ?_) (zipIdx_of_forall₂ hframes 0)
    rw [frameIdentity, frameIdentity, hboth.2, hboth.1.rawIdentity_eq]
  rw [significantFrames, significantFrames, List.filterMap_reverse, List.filterMap_reverse, hsame]

section Bodies

variable {moves : List ImageMove} {body moved : NormalizedEventBody} (h : Relocated moves body moved)
include h

theorem Relocated.modules : (nativeModules body).Perm (moves.map fun move => move.module ImageMove.before) := by
  refine (nativeModules_perm body).trans ?_
  have hperm := h.images.filterMap id
  rw [List.filterMap_map, List.filterMap_map] at hperm
  rwa [← List.filterMap_eq_map]

theorem Relocated.movedModules : (nativeModules moved).Perm (moves.map fun move => move.module ImageMove.after) := by
  refine (nativeModules_perm moved).trans ?_
  have hperm := h.movedImages.filterMap id
  rw [List.filterMap_map, List.filterMap_map] at hperm
  rwa [← List.filterMap_eq_map]

/-- A frame keeps its image and its place in it. -/
theorem Relocated.resolveAddress_eq {frame movedFrame : NormalizedFrame} (hframe : FrameMoved moves frame movedFrame) :
    resolveAddress (nativeModules moved) movedFrame = resolveAddress (nativeModules body) frame := by
  have hinstruction := hframe.instruction
  generalize hbefore : frame.instructionAddress.bind parseHexAddress = before at hinstruction
  generalize hafter : movedFrame.instructionAddress.bind parseHexAddress = after at hinstruction
  cases hinstruction with
  | unread =>
      rw [resolveAddress, resolveAddress, hbefore, hafter]
      rfl
  | inside hmove hoffset =>
      rw [resolveAddress_inside h.modules h.loaded hmove hoffset hbefore,
        resolveAddress_inside h.movedModules h.movedLoaded hmove hoffset hafter]
  | outside hout hmovedOut =>
      rw [resolveAddress_outside h.modules h.loaded hout hbefore,
        resolveAddress_outside h.movedModules h.movedLoaded hmovedOut hafter]

theorem Relocated.allFrames : List.Forall₂ (FrameMoved moves) (allFrames body) (allFrames moved) :=
  List.rel_append (flatMap_of_forall₂ (fun _ _ hexception => hexception.stacktrace) h.exceptions) h.stacktrace

theorem Relocated.nativePairs_eq : nativePairs moved = nativePairs body := by
  have hsame : (EventGrouping.allFrames body).filterMap (resolveAddress (nativeModules body))
      = (EventGrouping.allFrames moved).filterMap (resolveAddress (nativeModules moved)) :=
    filterMap_eq_of_forall₂ (fun _ _ hframe => (h.resolveAddress_eq hframe).symm) h.allFrames
  rw [nativePairs, nativePairs, List.filterMap_reverse, List.filterMap_reverse, hsame]

theorem Relocated.types_eq : moved.exceptions.map (·.ty) = body.exceptions.map (·.ty) :=
  (map_eq_of_forall₂ (fun _ _ hexception => hexception.ty.symm) h.exceptions).symm

/-- The native strategy selects the same components. -/
theorem Relocated.nativeStack_eq : nativeStack moved = nativeStack body := by
  have htype : lastExceptionType moved = lastExceptionType body := by
    have hlast : ∀ body : NormalizedEventBody,
        lastExceptionType body = (body.exceptions.map (·.ty)).reverse.findSome? id := by
      intro body
      rw [lastExceptionType, ← List.map_reverse, List.findSome?_map]
      rfl
    rw [hlast, hlast, h.types_eq]
  rw [nativeStack, nativeStack, h.nativePairs_eq, htype]

/-- The exception strategy selects the same components as well. -/
theorem Relocated.exceptionStack_eq (symbolication : Option SymbolicationResult) :
    exceptionStack moved symbolication = exceptionStack body symbolication := by
  have haddresses : (EventGrouping.allFrames moved).any (fun frame =>
        frame.instructionAddress.isSome || frame.symbolAddress.isSome)
      = (EventGrouping.allFrames body).any fun frame => frame.instructionAddress.isSome || frame.symbolAddress.isSome := by
    have hmap : (EventGrouping.allFrames body).map (fun frame => frame.instructionAddress.isSome || frame.symbolAddress.isSome)
        = (EventGrouping.allFrames moved).map fun frame => frame.instructionAddress.isSome || frame.symbolAddress.isSome :=
      map_eq_of_forall₂ (fun _ _ hframe => by rw [hframe.instructionPresent, hframe.symbolPresent]) h.allFrames
    have hany := congrArg (List.any · id) hmap
    rw [List.any_map, List.any_map] at hany
    exact hany.symm
  have htypes : exceptionTypes moved = exceptionTypes body := by
    have hread : ∀ body : NormalizedEventBody, exceptionTypes body
        = (((body.exceptions.map (·.ty)).reverse.filterMap id).take maxExceptionTypes).reverse := by
      intro body
      rw [exceptionTypes, ← List.map_reverse, List.filterMap_map]
      rfl
    rw [hread, hread, h.types_eq]
  have hframes : exceptionFrames moved symbolication = exceptionFrames body symbolication := by
    have hmap : (body.exceptions.zipIdx.map fun exception =>
          significantFrames exception.1.stacktrace (derivedFrames symbolication (.exception exception.2)))
        = moved.exceptions.zipIdx.map fun exception =>
          significantFrames exception.1.stacktrace (derivedFrames symbolication (.exception exception.2)) :=
      map_eq_of_forall₂ (fun _ _ hboth => by rw [hboth.2, significantFrames_eq hboth.1.stacktrace])
        (zipIdx_of_forall₂ h.exceptions 0)
    rw [exceptionFrames_eq, exceptionFrames_eq, hmap, significantFrames_eq h.stacktrace]
  rw [exceptionStack, exceptionStack, selectedFrames, selectedFrames, haddresses, hframes, htypes]

/-- Native grouping is independent of load addresses. -/
theorem relocated_groups_alike : nativeStack moved = nativeStack body
    ∧ ∀ (blake3 : List (BitVec 8) → BitVec 256) (projectId : ProjectId) (revision : BitVec 64)
      (symbolication : Option SymbolicationResult),
      group blake3 projectId revision moved symbolication = group blake3 projectId revision body symbolication := by
  refine ⟨h.nativeStack_eq, fun blake3 projectId revision symbolication => ?_⟩
  have hmessage : messageStrategy moved = messageStrategy body := by
    rw [messageStrategy, messageStrategy, h.logger, h.message]
  have hdefault : selectDefault moved symbolication = selectDefault body symbolication := by
    rw [selectDefault, selectDefault, h.exceptionStack_eq, h.nativeStack_eq, hmessage]
  rw [group, group, groupRevision1, groupRevision1, selectFingerprint, selectFingerprint, hdefault, h.fingerprint]

end Bodies

def nativeFrame (address : String) : NormalizedFrame :=
  ⟨none, none, none, none, none, some address.toList, none, none, none, none, none, [], [], [], []⟩

def debugImage (identity address size : String) : CanonicalValue :=
  .object
    [("debug_id".toList, .string identity.toList), ("image_addr".toList, .string address.toList),
      ("image_size".toList, .number size.toList)]

/-- A crash with an address in each of two images and one outside of them. -/
def crashBody (images : List CanonicalValue) (first second : String) : NormalizedEventBody where
  occurredAt := ⟨0, inRange_epoch⟩
  platform := .native
  level := .error
  logger := none
  message := none
  transaction := none
  release := none
  dist := none
  environment := none
  fingerprint := []
  exceptions := [⟨some "SIGSEGV".toList, none, none, none, none, [nativeFrame first, nativeFrame "0x7000"], [], []⟩]
  stacktrace := [nativeFrame second]
  tags := []
  request := none
  user := none
  contexts := []
  breadcrumbs := []
  unknown := [("debug_meta".toList, .object [("images".toList, .array images)])]

def crashMoves : List ImageMove :=
  [⟨"app".toList, 256, 0x1000, 0x9000⟩, ⟨"libc".toList, 512, 0x2000, 0x3000⟩]

def crashBefore : NormalizedEventBody :=
  crashBody [debugImage "app" "0x1000" "256", debugImage "libc" "0x2000" "512"] "0x10ff" "0x2000"

def crashAfter : NormalizedEventBody :=
  crashBody [debugImage "libc" "0x3000" "512", debugImage "app" "0x9000" "256"] "0x90ff" "0x3000"

theorem crash_loaded {place : ImageMove → Nat}
    (hplace : crashMoves.Pairwise fun left right => place left + left.size ≤ place right
      ∨ place right + right.size ≤ place left)
    (hfits : ∀ move ∈ crashMoves, place move + move.size ≤ 2 ^ 64) : Loaded place crashMoves where
  disjoint := hplace.imp fun hapart address hcovers => by
    obtain ⟨⟨hlow, hhigh⟩, hother, hend⟩ := hcovers
    omega
  fits := hfits

theorem crash_frame {text moved : String} {address movedAddress : Nat}
    (haddress : parseHexAddress text.toList = some address) (hmoved : parseHexAddress moved.toList = some movedAddress)
    (h : AddressMoved crashMoves (some address) (some movedAddress)) :
    FrameMoved crashMoves (nativeFrame text) (nativeFrame moved) where
  instruction := by
    rw [nativeFrame, nativeFrame, Option.bind_some, Option.bind_some, haddress, hmoved]
    exact h
  instructionPresent := rfl
  symbolPresent := rfl
  other := rfl

theorem crash_relocated : Relocated crashMoves crashBefore crashAfter := by
  have hfirst : FrameMoved crashMoves (nativeFrame "0x10ff") (nativeFrame "0x90ff") :=
    crash_frame (by decide : _ = some (0x1000 + 255)) (by decide : _ = some (0x9000 + 255))
      (@AddressMoved.inside crashMoves ⟨"app".toList, 256, 0x1000, 0x9000⟩ 255 List.mem_cons_self (by decide))
  have hsecond : FrameMoved crashMoves (nativeFrame "0x7000") (nativeFrame "0x7000") :=
    crash_frame (by decide : _ = some 0x7000) (by decide : _ = some 0x7000) (.outside
      (by simp [crashMoves, ImageMove.Covers]) (by simp [crashMoves, ImageMove.Covers]))
  have hthird : FrameMoved crashMoves (nativeFrame "0x2000") (nativeFrame "0x3000") :=
    crash_frame (by decide : _ = some (0x2000 + 0)) (by decide : _ = some (0x3000 + 0))
      (@AddressMoved.inside crashMoves ⟨"libc".toList, 512, 0x2000, 0x3000⟩ 0 (List.mem_cons_of_mem _ List.mem_cons_self)
        (by decide))
  exact
    { images := .of_eq (by decide)
      movedImages := (List.Perm.of_eq (by decide)).trans (List.Perm.swap _ _ [])
      loaded := crash_loaded (by decide) (by decide)
      movedLoaded := crash_loaded (by decide) (by decide)
      exceptions := .cons ⟨.cons hfirst (.cons hsecond .nil), rfl⟩ .nil
      stacktrace := .cons hthird .nil
      logger := rfl
      message := rfl
      fingerprint := rfl }

/-- The two images change places, and the addresses in them go along. -/
theorem relocated_groups_alike_crash : nativeStack crashAfter = nativeStack crashBefore :=
  (relocated_groups_alike crash_relocated).1

end EventGrouping

end MetricBackend
