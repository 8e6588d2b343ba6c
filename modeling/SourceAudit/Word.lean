/-! The bounds of numbers of 64 bits. -/
namespace SourceAudit.Word

/-- The first number that is too large without a sign. -/
def unsignedLimit : Nat := 0x10000000000000000

/-- The first number that is too large with a sign. -/
def signedLimit : Nat := 0x8000000000000000

end SourceAudit.Word
