import ProviderGen.Template.Lines

/-!
The files around the sources of a new project: what version control ignores, the build and the
deployment descriptor, the notes for its developer, and a schema to start from.
-/

namespace ProviderGen.Template

def ignoredFiles : Lines := [
  "# macOS",
  ".DS_Store",
  "._*",
  "",
  "# Maven outputs",
  ".classpath",
  "",
  "# IntelliJ",
  "*.iml",
  ".idea",
  "out.java",
  "out/",
  ".settings",
  ".project",
  "",
  "# auto-generated files",
  "target/",
  "",
  "# our logs",
  "rpdk.log",
  "",
  "# contains credentials",
  "sam-tests/"]

def lombokConfig : Lines := [
  "# This file is generated by cfn-java-gen init.",
  "lombok.addLombokGeneratedAnnotation = true"]

/-- What the build descriptor is about. -/
structure Build where
  groupId : String
  artifactId : String
  executable : String
  generatedSources : String
  schemaFile : String

def buildDescriptor (b : Build) : Lines := [
  "<?xml version=\"1.0\" encoding=\"UTF-8\"?>",
  "<project xmlns=\"http://maven.apache.org/POM/4.0.0\"",
  "         xmlns:xsi=\"http://www.w3.org/2001/XMLSchema-instance\"",
  "         xsi:schemaLocation=\"http://maven.apache.org/POM/4.0.0 http://maven.apache.org/xsd/maven-4.0.0.xsd\">",
  "    <modelVersion>4.0.0</modelVersion>",
  "",
  "    <groupId>" ++ b.groupId ++ "</groupId>",
  "    <artifactId>" ++ b.artifactId ++ "</artifactId>",
  "    <name>" ++ b.artifactId ++ "</name>",
  "    <version>1.0-SNAPSHOT</version>",
  "    <packaging>jar</packaging>",
  "",
  "    <properties>",
  "        <maven.compiler.source>1.8</maven.compiler.source>",
  "        <maven.compiler.target>1.8</maven.compiler.target>",
  "        <project.build.sourceEncoding>UTF-8</project.build.sourceEncoding>",
  "    </properties>",
  "",
  "    <dependencies>",
  "        <dependency>",
  "            <groupId>com.amazonaws</groupId>",
  "            <artifactId>aws-cloudformation-rpdk-java-plugin</artifactId>",
  "            <version>[1.0.0,2.0.0)</version>",
  "        </dependency>",
  "        <dependency>",
  "            <groupId>org.projectlombok</groupId>",
  "            <artifactId>lombok</artifactId>",
  "            <version>1.18.4</version>",
  "            <scope>provided</scope>",
  "        </dependency>",
  "        <dependency>",
  "            <groupId>junit</groupId>",
  "            <artifactId>junit</artifactId>",
  "            <version>4.12</version>",
  "            <scope>test</scope>",
  "        </dependency>",
  "        <dependency>",
  "            <groupId>org.hamcrest</groupId>",
  "            <artifactId>hamcrest-library</artifactId>",
  "            <version>1.3</version>",
  "            <scope>test</scope>",
  "        </dependency>",
  "        <dependency>",
  "            <groupId>org.mockito</groupId>",
  "            <artifactId>mockito-core</artifactId>",
  "            <version>2.26.0</version>",
  "            <scope>test</scope>",
  "        </dependency>",
  "    </dependencies>",
  "",
  "    <build>",
  "        <plugins>",
  "            <plugin>",
  "                <groupId>org.codehaus.mojo</groupId>",
  "                <artifactId>exec-maven-plugin</artifactId>",
  "                <version>1.6.0</version>",
  "                <executions>",
  "                    <execution>",
  "                        <id>generate</id>",
  "                        <phase>generate-sources</phase>",
  "                        <goals>",
  "                            <goal>exec</goal>",
  "                        </goals>",
  "                        <configuration>",
  "                            <executable>" ++ b.executable ++ "</executable>",
  "                            <commandlineArgs>generate</commandlineArgs>",
  "                            <workingDirectory>$\x7bproject.basedir\x7d</workingDirectory>",
  "                        </configuration>",
  "                    </execution>",
  "                </executions>",
  "            </plugin>",
  "            <plugin>",
  "                <groupId>org.codehaus.mojo</groupId>",
  "                <artifactId>build-helper-maven-plugin</artifactId>",
  "                <version>3.0.0</version>",
  "                <executions>",
  "                    <execution>",
  "                        <id>add-source</id>",
  "                        <phase>generate-sources</phase>",
  "                        <goals>",
  "                            <goal>add-source</goal>",
  "                        </goals>",
  "                        <configuration>",
  "                            <sources>",
  "                                <source>$\x7bproject.basedir\x7d/" ++ b.generatedSources ++
    "</source>",
  "                            </sources>",
  "                        </configuration>",
  "                    </execution>",
  "                </executions>",
  "            </plugin>",
  "            <plugin>",
  "                <groupId>org.apache.maven.plugins</groupId>",
  "                <artifactId>maven-shade-plugin</artifactId>",
  "                <version>2.3</version>",
  "                <configuration>",
  "                    <createDependencyReducedPom>false</createDependencyReducedPom>",
  "                </configuration>",
  "                <executions>",
  "                    <execution>",
  "                        <phase>package</phase>",
  "                        <goals>",
  "                            <goal>shade</goal>",
  "                        </goals>",
  "                    </execution>",
  "                </executions>",
  "            </plugin>",
  "        </plugins>",
  "        <resources>",
  "            <resource>",
  "                <directory>$\x7bproject.basedir\x7d</directory>",
  "                <includes>",
  "                    <include>" ++ b.schemaFile ++ "</include>",
  "                </includes>",
  "            </resource>",
  "        </resources>",
  "    </build>",
  "</project>"]

/-- What the deployment descriptor is about. -/
structure Deployment where
  resourceType : String
  handler : String
  runtime : String
  codeUri : String

def deploymentDescriptor (d : Deployment) : Lines := [
  "AWSTemplateFormatVersion: \"2010-09-09\"",
  "Transform: AWS::Serverless-2016-10-31",
  "Description: AWS SAM template for the " ++ d.resourceType ++ " resource type",
  "",
  "Globals:",
  "  Function:",
  "    Timeout: 60  # docker start-up times can be long for SAM CLI",
  "",
  "Resources:",
  "  TypeFunction:",
  "    Type: AWS::Serverless::Function",
  "    Properties:",
  "      Handler: " ++ d.handler,
  "      Runtime: " ++ d.runtime,
  "      CodeUri: " ++ d.codeUri]

def readme (typeName schemaFile executable : String) : Lines := [
  "# " ++ typeName,
  "",
  "Congratulations on starting development! Next steps:",
  "",
  "1. Write the JSON schema describing your resource, `" ++ schemaFile ++ "`",
  "2. Implement your resource handlers.",
  "",
  "The RPDK will automatically generate the correct resource model from the",
  "schema whenever the project is built via Maven. You can also do this manually",
  "with the following command: `" ++ executable ++ " generate`.",
  "",
  "> Please don't modify files under `target/generated-sources/rpdk`, as they will be",
  "automatically overwritten.",
  "",
  "The code uses [Lombok](https://projectlombok.org/), and [you may have to install",
  "IDE integrations](https://projectlombok.org/) to enable auto-complete for",
  "Lombok-annotated classes."]

def exampleSchema (typeName : String) : Lines := [
  "\x7b",
  "    \"typeName\": \"" ++ typeName ++ "\",",
  "    \"description\": \"An example resource schema demonstrating some basic constructs.\",",
  "    \"definitions\": \x7b",
  "        \"Tag\": \x7b",
  "            \"type\": \"object\",",
  "            \"properties\": \x7b",
  "                \"Key\": \x7b",
  "                    \"type\": \"string\",",
  "                    \"description\": \"The key name of the tag.\"",
  "                \x7d,",
  "                \"Value\": \x7b",
  "                    \"type\": \"string\",",
  "                    \"description\": \"The value for the tag.\"",
  "                \x7d",
  "            \x7d,",
  "            \"required\": [",
  "                \"Key\",",
  "                \"Value\"",
  "            ],",
  "            \"additionalProperties\": false",
  "        \x7d",
  "    \x7d,",
  "    \"properties\": \x7b",
  "        \"Title\": \x7b",
  "            \"description\": \"The title of the resource.\",",
  "            \"type\": \"string\"",
  "        \x7d,",
  "        \"TestCode\": \x7b",
  "            \"description\": \"A code for this resource.\",",
  "            \"type\": \"string\",",
  "            \"enum\": [",
  "                \"NOT_STARTED\",",
  "                \"CANCELLED\"",
  "            ]",
  "        \x7d,",
  "        \"Tags\": \x7b",
  "            \"description\": \"An array of key-value pairs to apply to this resource.\",",
  "            \"type\": \"array\",",
  "            \"uniqueItems\": true,",
  "            \"items\": \x7b",
  "                \"$ref\": \"#/definitions/Tag\"",
  "            \x7d",
  "        \x7d,",
  "        \"Id\": \x7b",
  "            \"description\": \"Identifier assigned when the resource is created.\",",
  "            \"type\": \"string\"",
  "        \x7d",
  "    \x7d,",
  "    \"additionalProperties\": false,",
  "    \"required\": [",
  "        \"Title\"",
  "    ],",
  "    \"readOnlyProperties\": [",
  "        \"/properties/Id\"",
  "    ],",
  "    \"primaryIdentifier\": [",
  "        \"/properties/Id\"",
  "    ]",
  "\x7d"]

end ProviderGen.Template
