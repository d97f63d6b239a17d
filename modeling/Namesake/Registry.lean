import Namesake.SortedMap.Lemmas

/-! # Registration methods

Some methods do nothing but register objects under text keys, in an order that says little. They
have handlers of their own, found by the plain names of the method.
-/

namespace Namesake

/-- A method by plain names. -/
structure MethodKey where
  owner : String
  name : String
  descriptor : String
deriving DecidableEq, Repr, Inhabited

/-- Method keys are ordered by owner, name and descriptor. -/
instance : KeyOrder MethodKey :=
  .ofRank (fun k => (k.owner, k.name, k.descriptor)) fun {a b} h => by
    cases a; cases b; simp_all

/-- How the body of a registration method is read. -/
inductive RegistrationHandler where
  /-- Static fields assigned from a static factory that takes one text. -/
  | registryInitializer
  /-- Static fields assigned from a constructor whose first argument is a text, possibly through
  builder calls. -/
  | keyedConstructorTable
  /-- Taken note of without evidence. -/
  | skip
deriving DecidableEq, Repr

namespace RegistrationHandler

def name : RegistrationHandler → String
  | registryInitializer => "RegistryInitializer"
  | keyedConstructorTable => "KeyedConstructorTable"
  | skip => "Skip"

end RegistrationHandler

/-- The known registration methods. -/
def registry : SortedMap MethodKey RegistrationHandler :=
  let initializers := ["SoundEvents", "Blocks", "Items", "Biomes", "MobEffects", "PotionTypes",
    "Enchantments"].map ("net/minecraft/init/" ++ ·)
  let dataFixes := "net/minecraft/util/datafix/DataFixesManager"
  .ofList <|
    ((initializers ++ ["net/minecraft/world/storage/loot/LootTableList"]).map fun owner =>
      (⟨owner, "<clinit>", "()V"⟩, .registryInitializer)) ++
    [(⟨"net/minecraft/stats/StatList", "<clinit>", "()V"⟩, .keyedConstructorTable),
      (⟨dataFixes, "func_188276_a", "(Lnet/minecraft/util/datafix/DataFixer;)V"⟩, .skip),
      (⟨dataFixes, "func_188279_a", "()Lnet/minecraft/util/datafix/DataFixer;"⟩, .skip)]

end Namesake
